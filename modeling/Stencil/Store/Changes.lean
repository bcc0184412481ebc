import Stencil.Store

/-!
# Changes of a store

Which files are new, have other content or are gone. Links and directories do not count.

Main statement: a file is among the changes with its new content if and only if it is there and was
not there with that content (`mem_changed_iff`).
-/

namespace Stencil.Store

/-- The content of the file at a place. -/
def file? (store : Store) (place : Place) : Option ByteArray :=
  match store.find? place with
  | some (.file content) => some content
  | _ => none

/-- The files that are new or have other content, with their content. -/
def changed (before after : Store) (directory : Place) : List (Place × ByteArray) :=
  (after.filesWithin directory).filterMap fun place =>
    match after.file? place with
    | some content =>
      if (before.file? place).map ByteArray.data = some content.data then none
      else some (place, content)
    | none => none

/-- The files that are gone. -/
def removed (before after : Store) (directory : Place) : List Place :=
  (before.filesWithin directory).filter fun place => (after.file? place).isNone

theorem map_data_eq_some_iff {found : Option ByteArray} {content : ByteArray} :
    found.map ByteArray.data = some content.data ↔ found = some content := by
  cases found with
  | none => simp
  | some other =>
    simp only [Option.map_some, Option.some.injEq]
    exact ⟨fun h => ByteArray.ext h, fun h => h ▸ rfl⟩

theorem mem_changed_iff {before after : Store} {directory place : Place} {content : ByteArray} :
    (place, content) ∈ changed before after directory ↔
      place ∈ after.filesWithin directory ∧ after.file? place = some content ∧
        before.file? place ≠ some content := by
  unfold changed
  rw [List.mem_filterMap]
  constructor
  · rintro ⟨p, hp, h⟩
    split at h
    · next c hc =>
      split at h
      · cases h
      · next hne =>
        cases h
        exact ⟨hp, hc, fun heq => hne (map_data_eq_some_iff.2 heq)⟩
    · cases h
  · rintro ⟨hp, hc, hne⟩
    refine ⟨place, hp, ?_⟩
    rw [hc]
    exact if_neg fun heq => hne (map_data_eq_some_iff.1 heq)

end Stencil.Store
