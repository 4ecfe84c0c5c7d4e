import GraphGrammar.Proofs.Label.Reading

/-!
Labels without one of their keys. Taking the key away commutes with writing other keys, with patches that
do not have the key, and with the replacement of texts.
-/

namespace GraphGrammar.Label

variable {key : String}

theorem get?_erase_of_ne (label : Label) {k : String} (other : key ≠ k) :
    (label.erase key).get? k = label.get? k := by
  rw [get?_erase, if_neg other]

theorem string?_erase_of_ne (label : Label) {k : String} (other : key ≠ k) :
    (label.erase key).string? k = label.string? k := by
  rw [string?, get?_erase_of_ne label other]
  rfl

theorem number?_erase_of_ne (label : Label) {k : String} (other : key ≠ k) :
    (label.erase key).number? k = label.number? k := by
  rw [number?, get?_erase_of_ne label other]
  rfl

theorem contains_erase_of_ne (label : Label) {k : String} (other : key ≠ k) :
    (label.erase key).contains k = label.contains k := by
  rw [contains, get?_erase_of_ne label other]
  rfl

theorem erase_insert_self (label : Label) (value : Value) :
    (label.insert key value).erase key = label.erase key := by
  refine eq_of_get? fun k => ?_
  rw [get?_erase, get?_erase, get?_insert]
  split
  · rfl
  · rfl

theorem erase_insert_of_ne (label : Label) (value : Value) {k : String} (other : key ≠ k) :
    (label.insert k value).erase key = (label.erase key).insert k value := by
  refine eq_of_get? fun j => ?_
  rw [get?_erase, get?_insert, get?_insert, get?_erase]
  by_cases hit : key = j
  · rw [if_pos hit, if_pos hit, if_neg fun same => other (hit.trans same.symm)]
  · rw [if_neg hit, if_neg hit]

theorem erase_merge (label : Label) {patch : Label} (absent : patch.get? key = none) :
    (label.merge patch).erase key = (label.erase key).merge patch := by
  refine eq_of_get? fun k => ?_
  rw [get?_erase, get?_merge, get?_merge, get?_erase]
  split
  · next same =>
    rw [← same, absent]
    rfl
  · rfl

theorem erase_mapStrings (f : String → Option String) (label : Label) :
    (label.mapStrings f).erase key = (label.erase key).mapStrings f := by
  refine eq_of_get? fun k => ?_
  rw [get?_erase, get?_mapStrings, get?_mapStrings, get?_erase]
  split
  · rfl
  · rfl

end GraphGrammar.Label
