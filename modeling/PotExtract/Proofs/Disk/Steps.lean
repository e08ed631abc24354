import PotExtract.Disk
import PotExtract.Proofs.Outcome

/-! Steps along a path. Where a path leads is settled by its pieces alone, and the disk only tells
whether it leads there. -/

namespace PotExtract.Disk

variable {d d' : Disk} {place next : List String} {piece : String}

/-- The place that a piece of a path names from a place on. -/
def walk (place : List String) (piece : String) : List String :=
  if piece = "" ∨ piece = "." then place
  else if piece = ".." then place.dropLast
  else place ++ [piece]

/-- The place that a path names, whether the directories on the way are there or not. -/
def target (d : Disk) (path : String) : List String :=
  (Path.pieces path).foldl walk (d.start path)

theorem walk_of_stays (h : piece = "" ∨ piece = ".") : walk place piece = place :=
  if_pos h

theorem walk_up : walk place ".." = place.dropLast := by
  rw [walk, if_neg (by decide), if_pos rfl]

theorem walk_of_name (hempty : piece ≠ "") (hdot : piece ≠ ".") (hup : piece ≠ "..") :
    walk place piece = place ++ [piece] := by
  rw [walk, if_neg (not_or.2 ⟨hempty, hdot⟩), if_neg hup]

/-- A step starts at a directory, and a name has to be there. -/
theorem step_eq_ok_iff :
    d.step place piece = .ok next ↔
      d.node? place = some .directory ∧ next = walk place piece ∧
        (piece = "" ∨ piece = "." ∨ piece = ".." ∨ (d.node? next).isSome) := by
  cases hnode : d.node? place with
  | none => simp [step, hnode]
  | some node =>
    cases node with
    | file bytes => simp [step, hnode]
    | directory =>
      rw [step, hnode]
      dsimp only
      by_cases hstays : piece = "" ∨ piece = "."
      · rw [if_pos hstays, walk_of_stays hstays]
        constructor
        · rintro h
          exact ⟨rfl, (Except.ok.inj h).symm, hstays.imp_right .inl⟩
        · rintro ⟨-, rfl, -⟩
          rfl
      rw [if_neg hstays]
      rw [not_or] at hstays
      by_cases hup : piece = ".."
      · rw [if_pos hup, hup, walk_up]
        constructor
        · intro h
          exact ⟨rfl, (Except.ok.inj h).symm, .inr (.inr (.inl rfl))⟩
        · rintro ⟨-, rfl, -⟩
          rfl
      rw [if_neg hup, walk_of_name hstays.1 hstays.2 hup]
      by_cases hthere : (d.node? (place ++ [piece])).isSome
      · rw [if_pos hthere]
        constructor
        · intro h
          obtain rfl := Except.ok.inj h
          exact ⟨rfl, rfl, .inr (.inr (.inr hthere))⟩
        · rintro ⟨-, rfl, -⟩
          rfl
      · rw [if_neg hthere]
        constructor
        · intro h
          cases h
        · rintro ⟨-, rfl, hcase⟩
          simp [hstays, hup, hthere] at hcase

theorem step_dot :
    d.step place "." = .ok next ↔ d.node? place = some .directory ∧ place = next := by
  rw [step_eq_ok_iff, walk_of_stays (.inr rfl)]
  constructor
  · rintro ⟨hplace, rfl, -⟩
    exact ⟨hplace, rfl⟩
  · rintro ⟨hplace, rfl⟩
    exact ⟨hplace, rfl, .inr (.inl rfl)⟩

end PotExtract.Disk
