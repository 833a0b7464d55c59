import Classwright.Code.Printer

/-!
# Blocks of laid out code

Code is read back line by line. A brace on a line of its own opens or closes a block, and the body of a case
goes from its label to the next one, or to the brace that closes the switch.

* **`Region.enter`** — how a line changes the regions that are open, and in which of them it stands.
* **`BlockStructure`** — braces are balanced, and every line is indented by its regions.
* **`Nested`** — marks in which levels are opened and closed in pairs.
* **`Nested.laidOut`** — by induction on the nesting: reading such marks back closes all that they open.
-/

namespace Classwright.Code

/-! ## Lines of a text -/

/-- The lines of a text, the part after the last line feed included. -/
def textLines (text : String) : List (List Char) := text.toList.splitOn '\n'

/-- The number of spaces at the start of a line. -/
def indentation (line : List Char) : Nat := (line.takeWhile (· = ' ')).length

/-- A line without the spaces at its start. -/
def unindented (line : List Char) : List Char := line.dropWhile (· = ' ')

/-- A line with an opening brace only. -/
def isOpening (line : List Char) : Bool := unindented line = ['\x7b']

/-- A line with a closing brace only. -/
def isClosing (line : List Char) : Bool := unindented line = ['\x7d']

/-- The label of a case or of the last case of a switch. -/
def isLabel (line : List Char) : Bool :=
  unindented line = "default:".toList ||
    ("case ".toList.isPrefixOf (unindented line) && (unindented line).getLast? = some ':')

/-! ## Regions -/

/-- What indents the lines in it. -/
inductive Region where
  /-- Between braces. -/
  | braces
  /-- After the label of a case. -/
  | caseBody
deriving DecidableEq, Repr

namespace Region

/-- A label or a closing brace ends the body of a case. -/
def leaveBody : List Region → List Region
  | .caseBody :: regions => regions
  | regions => regions

/-- The regions in which a line stands, and the regions after it, from the innermost on. There are none if
the line closes a brace that is not open. -/
def enter (regions : List Region) (line : List Char) : Option (List Region × List Region) :=
  if isOpening line then some (regions, .braces :: regions)
  else if isClosing line then
    match leaveBody regions with
    | .braces :: outer => some (outer, outer)
    | _ => none
  else if isLabel line then some (leaveBody regions, .caseBody :: leaveBody regions)
  else some (regions, regions)

/-- The regions that are open after lines. -/
def after (regions : List Region) (lines : List (List Char)) : Option (List Region) :=
  lines.foldlM (fun current line => (enter current line).map Prod.snd) regions

/-- The regions in which the last of some lines stands. -/
def around (before : List (List Char)) (line : List Char) : Option (List Region) := do
  let regions ← after [] before
  let (outer, _) ← enter regions line
  return outer

end Region

/-- Lines whose indentation says exactly what is open around them. -/
structure BlockStructure (lines : List (List Char)) : Prop where
  /-- As many braces are closed as are opened. -/
  balanced : lines.countP isClosing = lines.countP isOpening
  /-- No more braces are closed than have been opened. -/
  closes : ∀ before after, lines = before ++ after → before.countP isClosing ≤ before.countP isOpening
  /-- A line with text is indented by four spaces for each open brace and each case around it. A closing
  brace is outside of its block. -/
  indented : ∀ before line after, lines = before ++ line :: after → unindented line ≠ [] →
    ∃ regions, Region.around before line = some regions ∧
      before.countP isOpening = regions.count .braces + (before ++ [line]).countP isClosing ∧
      indentation line = 4 * (regions.count .braces + regions.count .caseBody)

/-! ## Counting braces -/

namespace Region

variable {regions outer next last : List Region} {line : List Char} {lines : List (List Char)}

theorem count_leaveBody (regions : List Region) :
    (leaveBody regions).count .braces = regions.count .braces := by
  cases regions with
  | nil => rfl
  | cons region regions => cases region <;> simp [leaveBody]

theorem isClosing_of_isOpening (h : isOpening line = true) : isClosing line = false := by
  have hopening : unindented line = ['\x7b'] := of_decide_eq_true h
  simp [isClosing, hopening]

/-- A line stands in the regions before it, without a brace that it closes. -/
theorem count_of_enter (h : enter regions line = some (outer, next)) :
    regions.count .braces = outer.count .braces + [line].countP isClosing ∧
    regions.count .braces + [line].countP isOpening = next.count .braces + [line].countP isClosing := by
  unfold enter at h
  split at h
  case isTrue hopening =>
    obtain ⟨rfl, rfl⟩ := Prod.mk.inj (Option.some.inj h)
    simp [hopening, isClosing_of_isOpening hopening]
  case isFalse hopening =>
    split at h
    case isTrue hclosing =>
      rw [← count_leaveBody regions]
      split at h
      case h_1 inner hregions =>
        obtain ⟨rfl, rfl⟩ := Prod.mk.inj (Option.some.inj h)
        simp [hregions, hopening, hclosing]
      case h_2 => exact absurd h nofun
    case isFalse hclosing =>
      split at h
      all_goals
        obtain ⟨rfl, rfl⟩ := Prod.mk.inj (Option.some.inj h)
        simp [hopening, hclosing, count_leaveBody]

theorem after_cons (h : enter regions line = some (outer, next)) :
    after regions (line :: lines) = after next lines := by
  simp [after, h]

theorem count_of_after (h : after regions lines = some last) :
    regions.count .braces + lines.countP isOpening = last.count .braces + lines.countP isClosing := by
  induction lines generalizing regions with
  | nil =>
    obtain rfl : regions = last := by simpa [after] using h
    rfl
  | cons line lines ih =>
    cases henter : enter regions line with
    | none => simp [after, henter] at h
    | some found =>
      obtain ⟨outer, next⟩ := found
      have hline := (count_of_enter henter).2
      have hrest := ih (after_cons henter ▸ h)
      rw [List.countP_singleton, List.countP_singleton] at hline
      rw [List.countP_cons, List.countP_cons]
      omega

theorem length_eq_count (regions : List Region) :
    regions.length = regions.count .braces + regions.count .caseBody := by
  induction regions with
  | nil => rfl
  | cons region regions ih => cases region <;> simp [ih] <;> omega

end Region

/-! ## Reading lines -/

/-- Lines that lead from regions to regions, each of them indented by the regions in which it stands. -/
inductive LaidOut : List Region → List (List Char) → List Region → Prop where
  | nil {regions : List Region} : LaidOut regions [] regions
  | cons {regions outer next last : List Region} {line : List Char} {rest : List (List Char)}
      (hfeed : '\n' ∉ line) (henter : Region.enter regions line = some (outer, next))
      (hindent : unindented line ≠ [] → indentation line = 4 * outer.length)
      (hrest : LaidOut next rest last) : LaidOut regions (line :: rest) last

namespace LaidOut

variable {regions mid last : List Region} {xs ys lines : List (List Char)}

theorem append (h : LaidOut regions xs mid) (h' : LaidOut mid ys last) :
    LaidOut regions (xs ++ ys) last := by
  induction h with
  | nil => exact h'
  | cons hfeed henter hindent _ ih => exact .cons hfeed henter hindent (ih h')

theorem of_append (h : LaidOut regions (xs ++ ys) last) :
    ∃ mid, LaidOut regions xs mid ∧ LaidOut mid ys last := by
  induction xs generalizing regions with
  | nil => exact ⟨regions, .nil, h⟩
  | cons line xs ih =>
    obtain _ | ⟨hfeed, henter, hindent, hrest⟩ := h
    obtain ⟨mid, hxs, hys⟩ := ih hrest
    exact ⟨mid, .cons hfeed henter hindent hxs, hys⟩

theorem after_eq (h : LaidOut regions lines last) : Region.after regions lines = some last := by
  induction h with
  | nil => rfl
  | cons _ henter _ _ ih => exact (Region.after_cons henter).trans ih

theorem unbroken (h : LaidOut regions lines last) : ∀ line ∈ lines, '\n' ∉ line := by
  induction h with
  | nil => nofun
  | cons hfeed _ _ _ ih => exact List.forall_mem_cons.2 ⟨hfeed, ih⟩

/-- **Lines that close all that they open** have an exact block structure. -/
theorem blockStructure (h : LaidOut [] lines []) : BlockStructure lines where
  balanced := by
    have hcount := Region.count_of_after h.after_eq
    omega
  closes before after hlines := by
    obtain ⟨mid, hbefore, -⟩ := (hlines ▸ h).of_append
    have hcount := Region.count_of_after hbefore.after_eq
    rw [List.count_nil] at hcount
    omega
  indented before line after hlines htext := by
    obtain ⟨mid, hbefore, hline⟩ := (hlines ▸ h).of_append
    obtain _ | ⟨-, henter, hindent, -⟩ := hline
    rename_i outer next
    have hcount := Region.count_of_after hbefore.after_eq
    have houter := (Region.count_of_enter henter).1
    refine ⟨outer, ?_, ?_, ?_⟩
    · simp [Region.around, hbefore.after_eq, henter]
    · rw [List.count_nil] at hcount
      rw [List.countP_append]
      omega
    · rw [hindent htext, Region.length_eq_count]

end LaidOut

/-- The lines of a text of lines. What follows the last line feed is empty. -/
theorem textLines_join {lines : List String} (h : ∀ line ∈ lines, '\n' ∉ line.toList) :
    textLines (String.join (lines.map (· ++ "\n"))) = lines.map String.toList ++ [[]] := by
  induction lines with
  | nil => rfl
  | cons line lines ih =>
    obtain ⟨hline, hlines⟩ := List.forall_mem_cons.1 h
    have htext : (String.join ((line :: lines).map (· ++ "\n"))).toList =
        line.toList ++ '\n' :: (String.join (lines.map (· ++ "\n"))).toList := by
      simp [String.join_cons]
    rw [textLines, htext, List.splitOn_append_cons_self_of_not_mem hline]
    exact congrArg (line.toList :: ·) (ih hlines)

/-! ## Marks -/

/-- Text that starts neither with a space nor with a brace. -/
def starts (text : List Char) : Bool := text.head?.any fun c => c ∉ [' ', '\x7b', '\x7d']

/-- Text of a line that neither opens nor closes anything. -/
structure Ordinary (text : String) : Prop where
  feed : '\n' ∉ text.toList
  start : starts text.toList = true
  label : isLabel text.toList = false

/-- Text of a line with the label of a case. -/
structure Labels (text : String) : Prop where
  feed : '\n' ∉ text.toList
  start : starts text.toList = true
  label : isLabel text.toList = true

/-- What may stand between braces: declarations and statements, or the cases of a switch. -/
inductive Content where
  | code
  | cases

/-- Marks in which levels are opened and closed in pairs. -/
inductive Nested : Content → List Mark → Prop where
  | nil {content : Content} : Nested content []
  | append {content : Content} {xs ys : List Mark} (hxs : Nested content xs) (hys : Nested content ys) :
      Nested content (xs ++ ys)
  | blank : Nested .code [.blank]
  | line {text : String} (h : Ordinary text) : Nested .code [.line text]
  | braced {content : Content} {inner : List Mark} (h : Nested content inner) : Nested .code (braced inner)
  | case {text : String} {body : List Mark} (hlabel : Labels text) (hbody : Nested .code body) :
      Nested .cases ([.line text, .indent] ++ body ++ [.dedent])

section

variable {text : String} {regions : List Region} {level : Nat}

theorem toList_lineAt (level : Nat) (text : String) :
    (Mark.lineAt level text).toList = List.replicate (4 * level) ' ' ++ text.toList := by
  simp [Mark.lineAt]

theorem span_of_not_space {text : List Char} (h : text.head? ≠ some ' ') :
    text.takeWhile (· = ' ') = [] ∧ unindented text = text := by
  cases text with
  | nil => exact ⟨rfl, rfl⟩
  | cons c rest =>
    have hc : c ≠ ' ' := fun hc => h (congrArg some hc)
    simp [unindented, hc]

/-- The spaces before a text, and what is left without them. -/
theorem span_lineAt (h : text.toList.head? ≠ some ' ') (level : Nat) :
    indentation (Mark.lineAt level text).toList = 4 * level ∧
      unindented (Mark.lineAt level text).toList = text.toList := by
  have hspaces : ∀ c ∈ List.replicate (4 * level) ' ', decide (c = ' ') = true := fun c hc =>
    decide_eq_true (List.eq_of_mem_replicate hc)
  obtain ⟨htake, hdrop⟩ := span_of_not_space h
  rw [toList_lineAt, indentation, unindented, List.takeWhile_append_of_pos hspaces, htake,
    List.dropWhile_append_of_pos hspaces]
  exact ⟨by simp, hdrop⟩

/-- What a line is does not depend on its indentation. -/
theorem enter_lineAt (h : text.toList.head? ≠ some ' ') (level : Nat) :
    Region.enter regions (Mark.lineAt level text).toList = Region.enter regions text.toList := by
  simp only [Region.enter, isOpening, isClosing, isLabel, (span_lineAt h level).2, (span_of_not_space h).2]

theorem not_space_of_starts {text : List Char} (h : starts text = true) : text.head? ≠ some ' ' := by
  intro hhead
  rw [starts, hhead] at h
  exact absurd h (by decide)

theorem not_brace_of_starts {text : List Char} (h : starts text = true) :
    isOpening text = false ∧ isClosing text = false := by
  rw [isOpening, isClosing, (span_of_not_space (not_space_of_starts h)).2]
  constructor
  all_goals
    refine decide_eq_false fun heq => ?_
    rw [heq] at h
    exact absurd h (by decide)

theorem enter_ordinary (h : Ordinary text) :
    Region.enter regions text.toList = some (regions, regions) := by
  obtain ⟨hopening, hclosing⟩ := not_brace_of_starts h.start
  simp [Region.enter, hopening, hclosing, h.label]

theorem enter_label (h : Labels text) : Region.enter regions text.toList =
    some (Region.leaveBody regions, .caseBody :: Region.leaveBody regions) := by
  obtain ⟨hopening, hclosing⟩ := not_brace_of_starts h.start
  simp [Region.enter, hopening, hclosing, h.label]

theorem enter_closing {outer : List Region} (h : Region.leaveBody regions = .braces :: outer) :
    Region.enter regions "\x7d".toList = some (outer, outer) := by
  have hclosing : isOpening "\x7d".toList = false ∧ isClosing "\x7d".toList = true := by decide
  rw [Region.enter, hclosing.1, hclosing.2, h]
  rfl

theorem laidOut_blank : LaidOut regions [[]] regions :=
  .cons List.not_mem_nil rfl (fun h => absurd rfl h) .nil

/-- A line at the level of its regions. -/
theorem laidOut_line {outer next : List Region} (hfeed : '\n' ∉ text.toList)
    (hstart : text.toList.head? ≠ some ' ')
    (henter : Region.enter regions text.toList = some (outer, next)) :
    LaidOut regions [(Mark.lineAt outer.length text).toList] next := by
  refine .cons ?_ ((enter_lineAt hstart _).trans henter) (fun _ => (span_lineAt hstart _).1) .nil
  rw [toList_lineAt, List.mem_append, not_or]
  exact ⟨fun hmem => absurd (List.eq_of_mem_replicate hmem) (by decide), hfeed⟩

end

theorem Mark.lines_append (level : Nat) (xs ys : List Mark) :
    Mark.lines level (xs ++ ys) = Mark.lines level xs ++ Mark.lines (xs.foldl Mark.next level) ys := by
  induction xs generalizing level with
  | nil => rfl
  | cons mark xs ih => rw [List.cons_append, lines, lines, ih, List.append_assoc, List.foldl_cons]

namespace Mark

/-- Wherever a level ends, it is above a floor. -/
def Descends (floor level : Nat) (marks : List Mark) : Prop :=
  ∀ before mark after, marks = before ++ mark :: after → mark = .closing ∨ mark = .dedent →
    floor < before.foldl next level

theorem descends_single {floor level : Nat} {mark : Mark}
    (h : mark = .closing ∨ mark = .dedent → floor < level) : Descends floor level [mark] := by
  rintro before other after hmarks hfalls
  rcases List.singleton_eq_append_iff.1 hmarks with ⟨rfl, heq⟩ | ⟨-, heq⟩
  · obtain ⟨rfl, -⟩ := List.cons.inj heq
    exact h hfalls
  · exact absurd heq (List.cons_ne_nil _ _)

theorem Descends.append {floor level : Nat} {xs ys : List Mark} (h : Descends floor level xs)
    (h' : Descends floor (xs.foldl next level) ys) : Descends floor level (xs ++ ys) := by
  intro before mark after hmarks hfalls
  rcases List.append_eq_append_iff.1 hmarks with ⟨front, rfl, hys⟩ | ⟨rest, rfl, hrest⟩
  · rw [List.foldl_append]
    exact h' front mark after hys hfalls
  · cases rest with
    | nil =>
      rw [List.append_nil] at h'
      exact h' [] mark after hrest.symm hfalls
    | cons other rest =>
      obtain ⟨rfl, -⟩ := List.cons.inj hrest
      exact h before mark rest rfl hfalls

end Mark

namespace Nested

variable {content : Content} {marks : List Mark}

/-- Marks end at the level at which they start. -/
theorem level (h : Nested content marks) (level : Nat) : marks.foldl Mark.next level = level := by
  induction h generalizing level with
  | nil | blank | line => rfl
  | append _ _ ihxs ihys => rw [List.foldl_append, ihxs, ihys]
  | braced _ ih =>
    simp only [Code.braced, List.foldl_append, List.foldl_cons, List.foldl_nil, ih]
    rfl
  | case _ _ ih =>
    simp only [List.foldl_append, List.foldl_cons, List.foldl_nil, ih]
    rfl

/-- A level that ends has started before: inside of braces and cases the level is higher. -/
theorem descends (h : Nested content marks) {floor level : Nat} (hfloor : floor ≤ level) :
    Mark.Descends floor level marks := by
  induction h generalizing level with
  | nil => exact fun _ _ _ hmarks => absurd hmarks (by simp)
  | blank | line => exact Mark.descends_single nofun
  | append hxs _ ihxs ihys =>
    refine (ihxs hfloor).append ?_
    rw [hxs.level]
    exact ihys hfloor
  | @braced _ inner hinner ih =>
    have hopening : Mark.Descends floor level [.opening] := Mark.descends_single nofun
    refine (hopening.append (ih (Nat.le_succ_of_le hfloor))).append (Mark.descends_single fun _ => ?_)
    rw [List.foldl_append, hinner.level]
    exact Nat.lt_succ_of_le hfloor
  | @case text body _ hbody ih =>
    have hlabel : Mark.Descends floor level [.line text] := Mark.descends_single nofun
    have hindent : Mark.Descends floor level [.indent] := Mark.descends_single nofun
    refine ((hlabel.append hindent).append (ih (Nat.le_succ_of_le hfloor))).append
      (Mark.descends_single fun _ => ?_)
    rw [List.foldl_append, hbody.level]
    exact Nat.lt_succ_of_le hfloor

end Nested

/-- What may be open where marks start or end. The body of a case is open until the next label is read, or
the brace that closes the switch. -/
def Content.Holds : Content → List Region → List Region → Prop
  | .code, regions, current => current = regions
  | .cases, regions, current => Region.leaveBody current = regions

theorem Content.holds_braces (content : Content) (regions : List Region) :
    content.Holds (.braces :: regions) (.braces :: regions) := by
  cases content <;> rfl

theorem Content.leaveBody_of_holds {content : Content} {regions current : List Region}
    (h : content.Holds (.braces :: regions) current) : Region.leaveBody current = .braces :: regions := by
  cases content with
  | code => rw [show current = .braces :: regions from h]; rfl
  | cases => exact h

/-- **Nested marks close what they open.** -/
theorem Nested.laidOut {content : Content} {marks : List Mark} (h : Nested content marks)
    {regions start : List Region} (hstart : content.Holds regions start) :
    ∃ last, content.Holds regions last ∧
      LaidOut start ((Mark.lines regions.length marks).map String.toList) last := by
  induction h generalizing regions start with
  | nil => exact ⟨start, hstart, .nil⟩
  | append hxs _ ihxs ihys =>
    obtain ⟨mid, hmid, hfirst⟩ := ihxs hstart
    obtain ⟨last, hlast, hsecond⟩ := ihys hmid
    rw [Mark.lines_append, hxs.level, List.map_append]
    exact ⟨last, hlast, hfirst.append hsecond⟩
  | blank => exact ⟨start, hstart, laidOut_blank⟩
  | @line text h =>
    obtain rfl : start = regions := hstart
    exact ⟨start, rfl, laidOut_line h.feed (not_space_of_starts h.start) (enter_ordinary h)⟩
  | @braced content inner hinner ih =>
    obtain rfl : start = regions := hstart
    -- whatever is open after the last line inside, the closing brace leaves both
    obtain ⟨last, hlast, hlines⟩ := ih (content.holds_braces start)
    have hopening : LaidOut start [(Mark.lineAt start.length "\x7b").toList] (.braces :: start) :=
      laidOut_line (by decide) (by decide) rfl
    have hclosing : LaidOut last [(Mark.lineAt start.length "\x7d").toList] start :=
      laidOut_line (by decide) (by decide) (enter_closing (Content.leaveBody_of_holds hlast))
    have hbraced : Mark.lines start.length (Code.braced inner) = Mark.lineAt start.length "\x7b" ::
        (Mark.lines (start.length + 1) inner ++ [Mark.lineAt start.length "\x7d"]) := by
      rw [Code.braced, Mark.lines_append, List.foldl_cons, hinner.level]
      rfl
    rw [hbraced, List.map_cons, List.map_append]
    exact ⟨start, rfl, hopening.append (hlines.append hclosing)⟩
  | @case text body hlabel hbody ih =>
    obtain rfl : Region.leaveBody start = regions := hstart
    -- the body of the case before it ends here, and a new one starts
    have hinner : Content.code.Holds (.caseBody :: Region.leaveBody start)
        (.caseBody :: Region.leaveBody start) := rfl
    obtain ⟨last, rfl, hlines⟩ := ih hinner
    have hline : LaidOut start [(Mark.lineAt (Region.leaveBody start).length text).toList]
        (.caseBody :: Region.leaveBody start) :=
      laidOut_line hlabel.feed (not_space_of_starts hlabel.start) (enter_label hlabel)
    have hcase : Mark.lines (Region.leaveBody start).length ([.line text, .indent] ++ body ++ [.dedent]) =
        Mark.lineAt (Region.leaveBody start).length text ::
          Mark.lines ((Region.leaveBody start).length + 1) body := by
      rw [Mark.lines_append, Mark.lines_append]
      simp [Mark.lines, Mark.text?, Mark.next]
    rw [hcase, List.map_cons]
    exact ⟨.caseBody :: Region.leaveBody start, rfl, hline.append hlines⟩

/-- **The text of nested marks has an exact block structure.** -/
theorem Nested.blockStructure {marks : List Mark} (h : Nested .code marks) :
    BlockStructure (textLines (Mark.render marks)) := by
  have hstart : Content.code.Holds [] [] := rfl
  obtain ⟨last, rfl, hlines⟩ := h.laidOut hstart
  have hfeed : ∀ line ∈ Mark.lines 0 marks, '\n' ∉ line.toList := fun line hline =>
    hlines.unbroken line.toList (List.mem_map_of_mem hline)
  rw [Mark.render, textLines_join hfeed]
  exact (hlines.append laidOut_blank).blockStructure

end Classwright.Code
