import Classwright.Generate

/-!
# Free text in comments

Descriptions and the notice of a file are free text, and the printer puts them into comments line by line.
Its lines end at a line feed. C# ends a line at a carriage return, at a next line, and at a line or
paragraph separator as well, and what stands behind one of these in a line of the printer is code, unless
it happens to be a comment itself.

* **`codeLines`** — the lines of a text as C# splits it, and **`Commented`**, that each of them is a
  comment.
* **`Contained`** — free text that holds no other end of a line, or only such ones behind which there is
  a comment again.
* **`codeLines_ended`** — C# splits printed lines one by one, since none of them ends with a blank.
* **`contained_escapeMarkup`** — escaping markup neither helps nor harms.
* **`free_text_commented_iff`** — exactly contained text stays in its comment.
-/

namespace Classwright.Code

open Emit

/-! ## Lines of code -/

/-- Whether C# ends a line at a character. -/
def isLineBreak (c : Char) : Bool :=
  c == '\n' || c == '\r' || c == '\u0085' || c == '\u2028' || c == '\u2029'

/-- The lines of a text. `current` holds the characters of the line under way, last first. A carriage
return with a line feed after it ends one line, and behind the last end there is no further line. -/
def codeLinesFrom (current : List Char) : List Char → List (List Char)
  | [] => if current.isEmpty then [] else [current.reverse]
  | '\r' :: '\n' :: rest => current.reverse :: codeLinesFrom [] rest
  | c :: rest =>
    if isLineBreak c then current.reverse :: codeLinesFrom [] rest else codeLinesFrom (c :: current) rest

/-- The lines of a text as C# splits it. -/
def codeLines (s : List Char) : List (List Char) := codeLinesFrom [] s

/-- A line that is a comment: after its indentation come two slashes. -/
def IsComment (line : List Char) : Prop := ['/', '/'] <+: line.dropWhile Text.isBlank

instance : DecidablePred IsComment := fun _ => inferInstanceAs (Decidable (_ <+: _))

/-- A text all of whose lines are comments. -/
def Commented (s : String) : Prop := ∀ line ∈ codeLines s.toList, IsComment line

/-- Free text whose lines, without the blanks at their ends, go on as comments wherever C# ends a line
in them. -/
def Contained (text : String) : Prop :=
  ∀ line ∈ Text.lines text, ∀ piece ∈ (codeLines (Text.trimEnd line).toList).tail, IsComment piece

instance (s : String) : Decidable (Commented s) := List.decidableBAll _ _

instance (text : String) : Decidable (Contained text) :=
  inferInstanceAs (Decidable (∀ _ ∈ _, ∀ _ ∈ _, _))

/-- The text of marks from a level on. -/
def Mark.renderFrom (level : Nat) (marks : List Mark) : String :=
  String.join ((lines level marks).map (· ++ "\n"))

theorem Mark.render_eq_renderFrom (marks : List Mark) :
    Mark.render marks = Mark.renderFrom 0 marks := rfl

theorem isBlank_of_isLineBreak {c : Char} (h : isLineBreak c = true) : Text.isBlank c = true := by
  simp only [isLineBreak, Bool.or_eq_true, beq_iff_eq] at h
  rcases h with (((rfl | rfl) | rfl) | rfl) | rfl <;> decide

theorem codeLinesFrom_of_lineBreak {c : Char} (h : isLineBreak c = true) {rest : List Char}
    (hpair : c = '\r' → rest.head? ≠ some '\n') (current : List Char) :
    codeLinesFrom current (c :: rest) = current.reverse :: codeLines rest := by
  rw [codeLinesFrom.eq_3 _ _ _ ?_, if_pos h]
  · rfl
  · rintro s rfl rfl
    exact hpair rfl rfl

/-- After the end of a line the next line starts, behind one character or two. -/
theorem exists_rest_of_lineBreak {c : Char} (h : isLineBreak c = true) (rest : List Char) :
    ∃ next, ∀ current, codeLinesFrom current (c :: rest) = current.reverse :: codeLines next := by
  by_cases hpair : c = '\r' ∧ rest.head? = some '\n'
  · obtain ⟨rfl, hhead⟩ := hpair
    obtain ⟨next, rfl⟩ := List.head?_eq_some_iff.1 hhead
    exact ⟨next, fun _ => rfl⟩
  · exact ⟨rest, codeLinesFrom_of_lineBreak h fun hc hhead => hpair ⟨hc, hhead⟩⟩

theorem codeLinesFrom_of_not_lineBreak {c : Char} (h : isLineBreak c = false)
    (current rest : List Char) :
    codeLinesFrom current (c :: rest) = codeLinesFrom (c :: current) rest := by
  rw [codeLinesFrom.eq_3 _ _ _ ?_, h]
  · rfl
  · rintro s rfl
    cases h

/-- What stands before the first end of a line is the start of a line. -/
theorem codeLinesFrom_append {front : List Char} (h : ∀ c ∈ front, isLineBreak c = false)
    (current rest : List Char) :
    codeLinesFrom current (front ++ rest) = codeLinesFrom (front.reverse ++ current) rest := by
  induction front generalizing current with
  | nil => rfl
  | cons c front ih =>
    rw [List.forall_mem_cons] at h
    rw [List.cons_append, codeLinesFrom_of_not_lineBreak h.1, ih h.2, List.reverse_cons,
      List.append_assoc, List.singleton_append]

/-- A line under way goes before the first line of the rest, and changes no other line. -/
theorem codeLinesFrom_eq_cons {current : List Char} (hcurrent : current ≠ []) (s : List Char) :
    codeLinesFrom current s =
      (current.reverse ++ (codeLines s).headD []) :: (codeLines s).tail := by
  induction s generalizing current with
  | nil => simp [codeLinesFrom, codeLines, hcurrent]
  | cons c rest ih =>
    cases hc : isLineBreak c with
    | true =>
      obtain ⟨next, hnext⟩ := exists_rest_of_lineBreak hc rest
      rw [codeLines, hnext, hnext]
      simp
    | false =>
      rw [codeLines, codeLinesFrom_of_not_lineBreak hc, codeLinesFrom_of_not_lineBreak hc,
        ih (List.cons_ne_nil _ _), ih (List.cons_ne_nil _ _)]
      simp

/-! ## Printed lines -/

/-- A line feed ends the last line of a text. The induction is along the lines: a text that does not end
with the end of a line goes on behind each of them, so the line feed ends no empty line. -/
theorem codeLinesFrom_ended {current x : List Char} (hne : current ≠ [] ∨ x ≠ [])
    (hx : ∀ c ∈ x.getLast?, isLineBreak c = false) (y : List Char) :
    codeLinesFrom current (x ++ '\n' :: y) = codeLinesFrom current x ++ codeLines y := by
  fun_induction codeLinesFrom current x with
  | case1 current hnil =>
    rw [List.isEmpty_iff] at hnil
    simp [hnil] at hne
  | case2 current _ => rfl
  | case3 current rest ih =>
    have hrest : rest ≠ [] := by
      rintro rfl
      exact absurd (hx '\n' rfl) (by decide)
    simp only [List.getLast?_cons_of_ne_nil hrest,
      List.getLast?_cons_of_ne_nil (List.cons_ne_nil _ _)] at hx
    exact congrArg (current.reverse :: ·) (ih (Or.inr hrest) hx)
  | case4 current c rest hpair hc ih =>
    have hrest : rest ≠ [] := by
      rintro rfl
      exact absurd hc (by rw [hx c rfl]; exact Bool.false_ne_true)
    rw [List.getLast?_cons_of_ne_nil hrest] at hx
    -- a carriage return would join the line feed only at the end of the text
    have hhead : c = '\r' → (rest ++ '\n' :: y).head? ≠ some '\n' := by
      obtain ⟨d, next, rfl⟩ := List.exists_cons_of_ne_nil hrest
      rintro hr hn
      cases hn
      exact hpair next hr rfl
    rw [List.cons_append, codeLinesFrom_of_lineBreak hc hhead, codeLines, ih (Or.inr hrest) hx,
      List.cons_append]
  | case5 current c rest _ hc ih =>
    rw [Bool.not_eq_true] at hc
    have hlast : ∀ d ∈ rest.getLast?, isLineBreak d = false := by
      intro d hd
      refine hx d ?_
      rw [List.getLast?_cons_of_ne_nil (List.ne_nil_of_mem (List.mem_of_getLast? hd))]
      exact hd
    rw [List.cons_append, codeLinesFrom_of_not_lineBreak hc, ih (Or.inl (List.cons_ne_nil _ _)) hlast]

/-- A text that is not empty, and whose last character does not end a line. -/
def Unended (line : List Char) : Prop := ∃ front c, line = front ++ [c] ∧ isLineBreak c = false

theorem Unended.append {line : List Char} (h : Unended line) (front : List Char) :
    Unended (front ++ line) := by
  obtain ⟨init, c, rfl, hc⟩ := h
  exact ⟨front ++ init, c, by rw [List.append_assoc], hc⟩

/-- C# splits printed lines one by one. -/
theorem codeLines_ended {lines : List (List Char)} (h : ∀ line ∈ lines, Unended line) :
    codeLines (lines.flatMap (· ++ ['\n'])) = lines.flatMap codeLines := by
  induction lines with
  | nil => rfl
  | cons line lines ih =>
    rw [List.forall_mem_cons] at h
    obtain ⟨⟨front, c, rfl, hc⟩, hlines⟩ := h
    have hlast : ∀ d ∈ (front ++ [c]).getLast?, isLineBreak d = false := by simpa using hc
    rw [List.flatMap_cons, List.flatMap_cons, ← ih hlines, List.append_assoc, List.singleton_append]
    exact codeLinesFrom_ended (Or.inr (by simp)) hlast _

theorem Mark.lines_map_line (level : Nat) (texts : List String) :
    Mark.lines level (texts.map .line) = texts.map (Mark.lineAt level) := by
  induction texts with
  | nil => rfl
  | cons text texts ih => rw [List.map_cons, Mark.lines, List.map_cons]; exact congrArg (_ :: ·) ih

theorem Mark.toList_renderFrom (level : Nat) (texts : List String) :
    (Mark.renderFrom level (texts.map .line)).toList =
      (texts.map fun text => (Mark.lineAt level text).toList).flatMap (· ++ ['\n']) := by
  rw [Mark.renderFrom, Mark.lines_map_line]
  simp [String.toList_join, List.flatMap_map]

/-- C# splits the printed lines of a comment one by one. -/
theorem commented_renderFrom_iff {level : Nat} {texts : List String}
    (h : ∀ text ∈ texts, Unended text.toList) :
    Commented (Mark.renderFrom level (texts.map .line)) ↔
      ∀ text ∈ texts, ∀ piece ∈ codeLines (Mark.lineAt level text).toList, IsComment piece := by
  have hunended : ∀ line ∈ texts.map fun text => (Mark.lineAt level text).toList, Unended line := by
    rw [List.forall_mem_map]
    intro text htext
    rw [Mark.lineAt, String.toList_append]
    exact (h text htext).append _
  rw [Commented, Mark.toList_renderFrom, codeLines_ended hunended]
  simp only [List.flatMap_map, List.forall_mem_flatMap]

/-! ## Comment signs -/

/-- What a comment starts with. -/
structure IsSign (sign : List Char) : Prop where
  slashes : ['/', '/'] <+: sign
  unbroken : sign.any isLineBreak = false

theorem IsSign.not_isLineBreak {sign : List Char} (h : IsSign sign) {c : Char} (hc : c ∈ sign) :
    isLineBreak c = false :=
  eq_false_of_ne_true (List.any_eq_false.1 h.unbroken c hc)

theorem isComment_of_sign {sign : List Char} (h : ['/', '/'] <+: sign) (level : Nat) (rest : List Char) :
    IsComment (List.replicate (4 * level) ' ' ++ sign ++ rest) := by
  have hindent : ∀ c ∈ List.replicate (4 * level) ' ', Text.isBlank c = true := by
    intro c hc
    rw [List.eq_of_mem_replicate hc]
    rfl
  obtain ⟨tail, rfl⟩ := h
  rw [IsComment, List.append_assoc, List.dropWhile_append_of_pos hindent]
  exact ⟨tail ++ rest, rfl⟩

/-- A line after a sign is a comment up to where C# ends it, and the rest is on its own. -/
theorem forall_isComment_indented {sign : List Char} (h : IsSign sign) (level : Nat) (rest : List Char) :
    (∀ piece ∈ codeLines (List.replicate (4 * level) ' ' ++ sign ++ rest), IsComment piece) ↔
      ∀ piece ∈ (codeLines rest).tail, IsComment piece := by
  have hunbroken : ∀ c ∈ List.replicate (4 * level) ' ' ++ sign, isLineBreak c = false := by
    rw [List.forall_mem_append]
    refine ⟨fun c hc => ?_, fun c hc => h.not_isLineBreak hc⟩
    rw [List.eq_of_mem_replicate hc]
    rfl
  have hne : (List.replicate (4 * level) ' ' ++ sign).reverse ++ [] ≠ [] := by
    obtain ⟨tail, rfl⟩ := h.slashes
    simp
  rw [codeLines, codeLinesFrom_append hunbroken, codeLinesFrom_eq_cons hne, List.append_nil,
    List.reverse_reverse, List.forall_mem_cons]
  exact and_iff_right (isComment_of_sign h.slashes level _)

theorem toList_trimEnd_cases (s : String) :
    (Text.trimEnd s).toList = [] ∨ ∃ front c, (Text.trimEnd s).toList = front ++ [c] ∧
      Text.isBlank c = false := by
  rw [Text.trimEnd, String.toList_ofList]
  cases hdrop : s.toList.reverse.dropWhile Text.isBlank with
  | nil => exact Or.inl rfl
  | cons c rest =>
    refine Or.inr ⟨rest.reverse, c, List.reverse_cons, ?_⟩
    have hhead := List.head?_dropWhile_not Text.isBlank s.toList.reverse
    rw [hdrop] at hhead
    simpa using hhead

theorem not_isLineBreak_of_not_isBlank {c : Char} (h : Text.isBlank c = false) :
    isLineBreak c = false := by
  cases hc : isLineBreak c with
  | true =>
    rw [isBlank_of_isLineBreak hc] at h
    cases h
  | false => rfl

theorem toList_commentLine (sign line : String) :
    (commentLine sign line).toList = sign.toList ++
      if (Text.trimEnd line).toList = [] then [] else ' ' :: (Text.trimEnd line).toList := by
  unfold commentLine
  dsimp only
  by_cases h : Text.trimEnd line = ""
  · simp [h]
  · simp [h]

section

variable {sign : String} (hsign : IsSign sign.toList)
include hsign

theorem unended_sign : Unended sign.toList := by
  obtain ⟨tail, htail⟩ := hsign.slashes
  have hne : sign.toList ≠ [] := by
    rw [← htail]
    exact List.cons_ne_nil _ _
  exact ⟨_, _, (List.dropLast_concat_getLast hne).symm, hsign.not_isLineBreak (List.getLast_mem hne)⟩

theorem unended_commentLine (line : String) : Unended (commentLine sign line).toList := by
  rw [toList_commentLine]
  rcases toList_trimEnd_cases line with hnil | ⟨front, c, htrim, hc⟩
  · rw [if_pos hnil, List.append_nil]
    exact unended_sign hsign
  · rw [htrim, if_neg (by simp)]
    exact ⟨_, c, (List.append_assoc _ (' ' :: front) [c]).symm, not_isLineBreak_of_not_isBlank hc⟩

/-- **A line of free text is a comment up to where C# ends it.** -/
theorem forall_isComment_commentLine (level : Nat) (line : String) :
    (∀ piece ∈ codeLines (Mark.lineAt level (commentLine sign line)).toList, IsComment piece) ↔
      ∀ piece ∈ (codeLines (Text.trimEnd line).toList).tail, IsComment piece := by
  rw [Mark.lineAt, String.toList_append, String.toList_ofList, toList_commentLine, ← List.append_assoc]
  split
  · next hnil =>
    rw [forall_isComment_indented hsign, hnil]
  · have hblank : IsSign (sign.toList ++ [' ']) := by
      refine ⟨hsign.slashes.trans (List.prefix_append _ _), ?_⟩
      rw [List.any_append, hsign.unbroken]
      rfl
    rw [List.append_cons, List.append_assoc _ sign.toList, forall_isComment_indented hblank]

end

theorem isSign_two : IsSign "//".toList := ⟨by decide, by decide⟩

theorem isSign_three : IsSign "///".toList := ⟨by decide, by decide⟩

/-- The notice of a file. -/
theorem commented_header_iff (text : String) :
    Commented (Mark.render ((headerLines text).map .line)) ↔ Contained text := by
  rw [Mark.render_eq_renderFrom, headerLines, commented_renderFrom_iff
    (List.forall_mem_map.2 fun line _ => unended_commentLine isSign_two line), List.forall_mem_map]
  simp only [forall_isComment_commentLine isSign_two]
  rfl

/-- The summary of a declaration. -/
theorem commented_summary_iff (level : Nat) (text : String) :
    Commented (Mark.renderFrom level (docMarks (some { summary := text }))) ↔ Contained text := by
  have htag {tag : String} (h : IsSign tag.toList) :
      ∀ piece ∈ codeLines (Mark.lineAt level tag).toList, IsComment piece := by
    have hempty := (forall_isComment_indented h level []).2 fun _ hp => absurd hp List.not_mem_nil
    rw [Mark.lineAt, String.toList_append, String.toList_ofList]
    rwa [List.append_nil] at hempty
  have hfirst : IsSign ("/// " ++ "<summary>").toList := ⟨by decide, by decide⟩
  have hlast : IsSign ("/// " ++ "</summary>").toList := ⟨by decide, by decide⟩
  have hdoc : docMarks (some { summary := text }) =
      (elementLines "<summary>" text "</summary>").map .line := by
    simp [docMarks, DocComment.lines]
  rw [hdoc, elementLines, commented_renderFrom_iff]
  · rw [List.forall_mem_append, List.forall_mem_append, List.forall_mem_singleton,
      List.forall_mem_singleton, List.forall_mem_map, and_iff_left (htag hlast),
      and_iff_right (htag hfirst)]
    simp only [forall_isComment_commentLine isSign_three]
    rfl
  · rw [List.forall_mem_append, List.forall_mem_append, List.forall_mem_singleton,
      List.forall_mem_singleton, List.forall_mem_map]
    exact ⟨⟨unended_sign hfirst, fun line _ => unended_commentLine isSign_three line⟩, unended_sign hlast⟩

/-! ## Markup -/

/-- Markup characters are replaced by text without blanks and slashes. -/
theorem escapeMarkupChar_cases (c : Char) :
    escapeMarkupChar c = [c] ∨ Text.isBlank c = false ∧ c ≠ '/' ∧
      ∃ inner, escapeMarkupChar c = '&' :: (inner ++ [';']) ∧ inner.any Text.isBlank = false := by
  unfold escapeMarkupChar
  split
  · exact Or.inr ⟨rfl, by decide, ['a', 'm', 'p'], rfl, rfl⟩
  · exact Or.inr ⟨rfl, by decide, ['l', 't'], rfl, rfl⟩
  · exact Or.inr ⟨rfl, by decide, ['g', 't'], rfl, rfl⟩
  · exact Or.inl rfl

theorem escapeMarkupChar_of_isBlank {c : Char} (h : Text.isBlank c = true) :
    escapeMarkupChar c = [c] := by
  rcases escapeMarkupChar_cases c with heq | ⟨hc, -⟩
  · exact heq
  · rw [h] at hc
    cases hc

theorem not_isBlank_of_mem_escapeMarkupChar {c d : Char} (h : Text.isBlank c = false)
    (hd : d ∈ escapeMarkupChar c) : Text.isBlank d = false := by
  rcases escapeMarkupChar_cases c with heq | ⟨-, -, inner, heq, hinner⟩
  · rw [heq, List.mem_singleton] at hd
    rwa [hd]
  · rw [heq, List.mem_cons, List.mem_append, List.mem_singleton] at hd
    rcases hd with rfl | hd | rfl
    · rfl
    · exact eq_false_of_ne_true (List.any_eq_false.1 hinner d hd)
    · rfl

theorem escapeMarkupChar_ne_nil (c : Char) : escapeMarkupChar c ≠ [] := by
  rcases escapeMarkupChar_cases c with heq | ⟨-, -, inner, heq, -⟩ <;> simp [heq]

/-- Dropping blanks commutes with a replacement that keeps blanks and makes none. -/
theorem dropWhile_isBlank_flatMap {f : Char → List Char} (hblank : ∀ c, Text.isBlank c = true → f c = [c])
    (hother : ∀ c, Text.isBlank c = false → ∃ d rest, f c = d :: rest ∧ Text.isBlank d = false)
    (s : List Char) :
    (s.flatMap f).dropWhile Text.isBlank = (s.dropWhile Text.isBlank).flatMap f := by
  induction s with
  | nil => rfl
  | cons c s ih =>
    rw [List.flatMap_cons]
    cases hc : Text.isBlank c with
    | true =>
      rw [hblank c hc, List.singleton_append, List.dropWhile_cons_of_pos hc,
        List.dropWhile_cons_of_pos hc, ih]
    | false =>
      obtain ⟨d, rest, hf, hd⟩ := hother c hc
      rw [hf, List.cons_append, List.dropWhile_cons_of_neg (by simp [hd]),
        List.dropWhile_cons_of_neg (by simp [hc]), List.flatMap_cons, hf, List.cons_append]

theorem slash_cons_isPrefix_iff {l s : List Char} :
    '/' :: l <+: s.flatMap escapeMarkupChar ↔
      ∃ rest, s = '/' :: rest ∧ l <+: rest.flatMap escapeMarkupChar := by
  cases s with
  | nil => simp
  | cons c s =>
    rw [List.flatMap_cons]
    rcases escapeMarkupChar_cases c with heq | ⟨-, hc, inner, heq, -⟩
    · rw [heq, List.singleton_append, List.cons_prefix_cons]
      constructor
      · rintro ⟨rfl, h⟩
        exact ⟨s, rfl, h⟩
      · rintro ⟨rest, hs, h⟩
        cases hs
        exact ⟨rfl, h⟩
    · rw [heq, List.cons_append, List.cons_prefix_cons]
      constructor
      · rintro ⟨hne, -⟩
        exact absurd hne (by decide)
      · rintro ⟨rest, hs, -⟩
        cases hs
        exact absurd rfl hc

theorem isComment_flatMap_escapeMarkupChar (piece : List Char) :
    IsComment (piece.flatMap escapeMarkupChar) ↔ IsComment piece := by
  have hother (c : Char) (hc : Text.isBlank c = false) :
      ∃ d rest, escapeMarkupChar c = d :: rest ∧ Text.isBlank d = false := by
    obtain ⟨d, rest, heq⟩ := List.exists_cons_of_ne_nil (escapeMarkupChar_ne_nil c)
    exact ⟨d, rest, heq, not_isBlank_of_mem_escapeMarkupChar hc (heq ▸ List.mem_cons_self)⟩
  rw [IsComment, IsComment,
    dropWhile_isBlank_flatMap (fun _ => escapeMarkupChar_of_isBlank) hother, slash_cons_isPrefix_iff]
  constructor
  · rintro ⟨rest, heq, hrest⟩
    obtain ⟨rest', rfl, -⟩ := slash_cons_isPrefix_iff.1 hrest
    exact ⟨rest', heq.symm⟩
  · rintro ⟨rest, heq⟩
    exact ⟨'/' :: rest, heq.symm, slash_cons_isPrefix_iff.2 ⟨rest, rfl, List.nil_prefix⟩⟩

theorem toList_escapeMarkup (s : String) :
    (escapeMarkup s).toList = s.toList.flatMap escapeMarkupChar := String.toList_ofList

/-- Blanks at the end of a line are not escaped. -/
theorem trimEnd_escapeMarkup (s : String) :
    Text.trimEnd (escapeMarkup s) = escapeMarkup (Text.trimEnd s) := by
  have hother (c : Char) (hc : Text.isBlank c = false) :
      ∃ d rest, (escapeMarkupChar c).reverse = d :: rest ∧ Text.isBlank d = false := by
    obtain ⟨d, rest, heq⟩ := List.exists_cons_of_ne_nil
      (List.reverse_ne_nil_iff.2 (escapeMarkupChar_ne_nil c))
    refine ⟨d, rest, heq, not_isBlank_of_mem_escapeMarkupChar hc (List.mem_reverse.1 ?_)⟩
    rw [heq]
    exact List.mem_cons_self
  have hblank (c : Char) (hc : Text.isBlank c = true) : (escapeMarkupChar c).reverse = [c] := by
    rw [escapeMarkupChar_of_isBlank hc]
    rfl
  rw [Text.trimEnd, toList_escapeMarkup, List.reverse_flatMap]
  show String.ofList ((s.toList.reverse.flatMap fun c => (escapeMarkupChar c).reverse).dropWhile
    Text.isBlank).reverse = _
  rw [dropWhile_isBlank_flatMap hblank hother, List.reverse_flatMap, escapeMarkup, Text.trimEnd,
    String.toList_ofList]
  simp only [Function.comp_def, List.reverse_reverse]

theorem head?_flatMap_escapeMarkupChar {s : List Char}
    (h : (s.flatMap escapeMarkupChar).head? = some '\n') : s.head? = some '\n' := by
  cases s with
  | nil => cases h
  | cons c s =>
    rcases escapeMarkupChar_cases c with heq | ⟨-, -, inner, heq, -⟩
    · rw [List.flatMap_cons, heq] at h
      exact h
    · rw [List.flatMap_cons, heq] at h
      cases h

/-- C# splits escaped text where it splits the text itself. -/
theorem codeLinesFrom_flatMap (current s : List Char) :
    codeLinesFrom (current.reverse.flatMap escapeMarkupChar).reverse (s.flatMap escapeMarkupChar) =
      (codeLinesFrom current s).map (List.flatMap escapeMarkupChar) := by
  fun_induction codeLinesFrom current s with
  | case1 current hnil =>
    rw [List.isEmpty_iff] at hnil
    rw [hnil]
    rfl
  | case2 current hne =>
    rw [List.isEmpty_iff] at hne
    have hne' : (current.reverse.flatMap escapeMarkupChar).reverse ≠ [] := by
      obtain ⟨c, rest, rfl⟩ := List.exists_cons_of_ne_nil hne
      simp [escapeMarkupChar_ne_nil]
    rw [List.flatMap_nil, codeLinesFrom_eq_cons hne', codeLines, codeLinesFrom]
    simp
  | case3 current rest ih =>
    rw [List.map_cons, ← ih]
    simp [escapeMarkupChar, codeLinesFrom]
  | case4 current c rest hpair hc ih =>
    have hhead : c = '\r' → (rest.flatMap escapeMarkupChar).head? ≠ some '\n' := by
      intro hr hn
      obtain ⟨next, rfl⟩ := List.head?_eq_some_iff.1 (head?_flatMap_escapeMarkupChar hn)
      exact hpair next hr rfl
    rw [List.flatMap_cons, escapeMarkupChar_of_isBlank (isBlank_of_isLineBreak hc), List.singleton_append,
      codeLinesFrom_of_lineBreak hc hhead, List.map_cons, ← ih, List.reverse_reverse]
    rfl
  | case5 current c rest _ hc ih =>
    -- what a character is replaced by has no blank in it, and so ends no line
    rw [Bool.not_eq_true] at hc
    have hunbroken : ∀ d ∈ escapeMarkupChar c, isLineBreak d = false := by
      intro d hd
      rcases escapeMarkupChar_cases c with heq | ⟨hblank, -⟩
      · rw [heq, List.mem_singleton] at hd
        rwa [hd]
      · exact not_isLineBreak_of_not_isBlank (not_isBlank_of_mem_escapeMarkupChar hblank hd)
    rw [← ih, List.flatMap_cons, codeLinesFrom_append hunbroken]
    simp

theorem lineOf_flatMap (current : List Char) :
    Text.lineOf (current.reverse.flatMap escapeMarkupChar).reverse =
      escapeMarkup (Text.lineOf current) := by
  cases current with
  | nil => rfl
  | cons c current =>
    by_cases hc : c = '\r'
    · subst hc
      simp [Text.lineOf, escapeMarkup, escapeMarkupChar]
    · -- neither the character nor what it is replaced by ends with a carriage return
      have hlast : ∃ d rest, (escapeMarkupChar c).reverse = d :: rest ∧ d ≠ '\r' := by
        rcases escapeMarkupChar_cases c with heq | ⟨-, -, inner, heq, -⟩
        · exact ⟨c, [], by rw [heq]; rfl, hc⟩
        · exact ⟨';', inner.reverse ++ ['&'], by simp [heq], by decide⟩
      obtain ⟨d, rest, heq, hd⟩ := hlast
      have hreversed : ((c :: current).reverse.flatMap escapeMarkupChar).reverse =
          d :: (rest ++ (current.reverse.flatMap escapeMarkupChar).reverse) := by
        simp [heq]
      rw [Text.lineOf.eq_2 _ ?_, Text.lineOf.eq_2 _ ?_]
      · simp [escapeMarkup]
      · rintro line hline
        cases hline
        exact hc rfl
      · rintro line hline
        rw [hreversed] at hline
        cases hline
        exact hd rfl

theorem linesOf_append {front : List Char} (h : '\n' ∉ front) (current rest : List Char) :
    Text.linesOf current (front ++ rest) = Text.linesOf (front.reverse ++ current) rest := by
  induction front generalizing current with
  | nil => rfl
  | cons c front ih =>
    rw [List.mem_cons, not_or] at h
    rw [List.cons_append, Text.linesOf.eq_3 _ _ _ (fun hc => h.1 hc.symm), ih h.2, List.reverse_cons,
      List.append_assoc, List.singleton_append]

/-- The printer splits escaped text where it splits the text itself. -/
theorem linesOf_flatMap (current s : List Char) :
    Text.linesOf (current.reverse.flatMap escapeMarkupChar).reverse (s.flatMap escapeMarkupChar) =
      (Text.linesOf current s).map escapeMarkup := by
  fun_induction Text.linesOf current s with
  | case1 current hnil =>
    rw [List.isEmpty_iff] at hnil
    rw [hnil]
    rfl
  | case2 current hne =>
    rw [List.isEmpty_iff] at hne
    obtain ⟨c, rest, rfl⟩ := List.exists_cons_of_ne_nil hne
    simp [Text.linesOf, escapeMarkup, escapeMarkupChar_ne_nil]
  | case3 current rest ih =>
    rw [List.map_cons, ← ih, ← lineOf_flatMap]
    rfl
  | case4 current c rest hc ih =>
    have hfeed : '\n' ∉ escapeMarkupChar c := by
      intro hmem
      rcases escapeMarkupChar_cases c with heq | ⟨hblank, -⟩
      · rw [heq, List.mem_singleton] at hmem
        exact hc hmem.symm
      · exact absurd (not_isBlank_of_mem_escapeMarkupChar hblank hmem) (by decide)
    rw [← ih, List.flatMap_cons, linesOf_append hfeed]
    simp

/-- **Escaping markup neither helps nor harms.** -/
theorem contained_escapeMarkup (text : String) : Contained (escapeMarkup text) ↔ Contained text := by
  have hlines : Text.lines (escapeMarkup text) = (Text.lines text).map escapeMarkup := by
    rw [Text.lines, toList_escapeMarkup]
    exact linesOf_flatMap [] text.toList
  have hpieces (line : String) : codeLines (Text.trimEnd (escapeMarkup line)).toList =
      (codeLines (Text.trimEnd line).toList).map (List.flatMap escapeMarkupChar) := by
    rw [trimEnd_escapeMarkup, toList_escapeMarkup]
    exact codeLinesFrom_flatMap [] _
  simp only [Contained, hlines, List.forall_mem_map, hpieces, ← List.map_tail,
    isComment_flatMap_escapeMarkupChar]

/-! ## Which text is contained -/

/-- Text whose lines go on to their ends. -/
theorem contained_of_unbroken {text : String}
    (h : ∀ line ∈ Text.lines text, ∀ c ∈ (Text.trimEnd line).toList, isLineBreak c = false) :
    Contained text := by
  intro line hline piece hpiece
  have hsplit := codeLinesFrom_append (h line hline) [] []
  rw [List.append_nil, List.append_nil] at hsplit
  rw [codeLines, hsplit, codeLinesFrom] at hpiece
  split at hpiece <;> cases hpiece

/-- A line that goes on after a line break, with a character that starts no comment. -/
theorem exists_mem_tail_codeLinesFrom {front rest : List Char} {b c : Char} (hfront : '\n' ∉ front)
    (hb : isLineBreak b = true) (hfeed : b ≠ '\n') (hc : Text.isBlank c = false) (current : List Char) :
    ∃ tail, c :: tail ∈ (codeLinesFrom current (front ++ b :: c :: rest)).tail := by
  induction front generalizing current with
  | nil =>
    have hpair : b = '\r' → (c :: rest).head? ≠ some '\n' := by
      rintro - hn
      cases hn
      cases hc
    rw [List.nil_append, codeLinesFrom_of_lineBreak hb hpair, List.tail_cons, codeLines,
      codeLinesFrom_of_not_lineBreak (not_isLineBreak_of_not_isBlank hc),
      codeLinesFrom_eq_cons (List.cons_ne_nil _ _)]
    exact ⟨_, List.mem_cons_self⟩
  | cons d front ih =>
    rw [List.mem_cons, not_or] at hfront
    cases hd : isLineBreak d with
    | false =>
      rw [List.cons_append, codeLinesFrom_of_not_lineBreak hd]
      exact ih hfront.2 _
    | true =>
      -- the lines behind an earlier line break are lines of the whole
      have hpair : d = '\r' → (front ++ b :: c :: rest).head? ≠ some '\n' := by
        rintro - hn
        cases front with
        | nil => exact hfeed (Option.some.inj hn)
        | cons e front => exact hfront.2 (Option.some.inj hn ▸ List.mem_cons_self)
      obtain ⟨tail, htail⟩ := ih hfront.2 []
      rw [List.cons_append, codeLinesFrom_of_lineBreak hd hpair, List.tail_cons]
      exact ⟨tail, List.mem_of_mem_tail htail⟩

theorem exists_toList_trimEnd {text : String} {front rest : List Char} {c : Char}
    (htext : text.toList = front ++ c :: rest) (hc : Text.isBlank c = false) :
    ∃ kept, (Text.trimEnd text).toList = front ++ c :: kept := by
  refine ⟨(rest.reverse.dropWhile Text.isBlank).reverse, ?_⟩
  rw [Text.trimEnd, String.toList_ofList, htext, List.reverse_append, List.reverse_cons,
    List.append_assoc, List.dropWhile_append]
  split
  · next hnil =>
    rw [List.isEmpty_iff] at hnil
    rw [hnil, List.singleton_append, List.dropWhile_cons_of_neg (by simp [hc])]
    simp
  · simp

/-- Text that goes on after a line break of C# alone, with a character that starts no comment. -/
theorem not_contained_of_lineBreak {text : String} {front rest : List Char} {b c : Char}
    (htext : text.toList = front ++ b :: c :: rest) (hfeed : '\n' ∉ text.toList)
    (hb : isLineBreak b = true) (hc : Text.isBlank c = false) (hslash : c ≠ '/') : ¬ Contained text := by
  have hne : text.toList.reverse ≠ [] := by simp [htext]
  -- the printer sees one line, and trimming stops at the character behind the break
  have hlines : Text.lines text = [text] := by
    have hsplit := linesOf_append hfeed [] []
    rw [List.append_nil, List.append_nil] at hsplit
    rw [Text.lines, hsplit, Text.linesOf, if_neg (by simpa using hne), List.reverse_reverse,
      String.ofList_toList]
  have hfront : '\n' ∉ front ∧ b ≠ '\n' := by
    rw [htext] at hfeed
    grind
  obtain ⟨kept, hkept⟩ := exists_toList_trimEnd (htext.trans (List.append_cons front b _)) hc
  rw [← List.append_cons] at hkept
  obtain ⟨tail, htail⟩ := exists_mem_tail_codeLinesFrom hfront.1 hb hfront.2 hc []
  intro hcontained
  have hcomment : IsComment (c :: tail) := by
    refine hcontained text (hlines ▸ List.mem_singleton_self text) _ ?_
    rw [hkept]
    exact htail
  rw [IsComment, List.dropWhile_cons_of_neg (by simp [hc]), List.cons_prefix_cons] at hcomment
  exact hslash hcomment.1.symm

/-- **Which free text stays in its comment.** The description of a class, that of a property and the notice
of a file are printed as comments all of whose lines C# takes for comments, exactly if the text is
contained. Text is contained if C# ends no line in it that the printer does not end. It is not, if it goes
on with code after a carriage return, a next line, or a line or paragraph separator. -/
theorem free_text_commented_iff (level : Nat) (text : String) (settings : Settings) (c : ClassModel)
    (p : Property) :
    (∃ doc, (classUnit settings { c with description := some text }).decl.doc = some doc ∧
      (Commented (Mark.renderFrom level (docMarks (some doc))) ↔ Contained text)) ∧
    (∃ doc, (storedProperty { p with description := some text }).doc = some doc ∧
      (Commented (Mark.renderFrom level (docMarks (some doc))) ↔ Contained text)) ∧
    (Commented (Mark.render ((headerLines text).map .line)) ↔ Contained text) ∧
    ((∀ line ∈ Text.lines text, ∀ x ∈ (Text.trimEnd line).toList, isLineBreak x = false) →
      Contained text) ∧
    ∀ front x y rest, text.toList = front ++ x :: y :: rest → '\n' ∉ text.toList →
      isLineBreak x = true → Text.isBlank y = false → y ≠ '/' → ¬ Contained text := by
  have hdescription :
      Commented (Mark.renderFrom level (docMarks (some { summary := escapeMarkup text }))) ↔
        Contained text := (commented_summary_iff level _).trans (contained_escapeMarkup text)
  refine ⟨⟨_, rfl, hdescription⟩, ⟨_, rfl, hdescription⟩, commented_header_iff text,
    contained_of_unbroken, ?_⟩
  intro front x y rest
  exact not_contained_of_lineBreak

/-- What stands after a carriage return is code, unless a line feed follows it. -/
theorem free_text_commented_iff_return :
    ¬ Commented (Mark.renderFrom 1 (docMarks (some { summary := escapeMarkup "See\rusing Other;" }))) ∧
      ¬ Commented (Mark.render ((headerLines "See\rusing Other;").map .line)) ∧
      Commented (Mark.render ((headerLines "See\r\nusing Other;").map .line)) := by
  obtain ⟨-, ⟨doc, hdoc, hdescription⟩, hheader, -, hbroken⟩ :=
    free_text_commented_iff 1 "See\rusing Other;" {} default default
  obtain ⟨-, -, hheader', -, -⟩ := free_text_commented_iff 1 "See\r\nusing Other;" {} default default
  have hnot : ¬ Contained "See\rusing Other;" :=
    hbroken ['S', 'e', 'e'] '\r' 'u' "sing Other;".toList (by decide) (by decide) rfl rfl (by decide)
  cases hdoc
  exact ⟨fun h => hnot (hdescription.1 h), fun h => hnot (hheader.1 h), hheader'.2 (by decide)⟩

end Classwright.Code
