import PotExtract.Keywords
import PotExtract.Python.Resolve
import PotExtract.Proofs.Outcome

/-! Keywords whose positions count from one. A specification that names the position zero is refused,
so every keyword that is read has such positions. The active keywords stay of this kind when
specifications add some, replace some or remove them all. -/

namespace PotExtract

namespace Keyword

/-- The positions of a keyword count from one. -/
def CountsFromOne (k : Keyword) : Prop :=
  ∀ p ∈ Python.positions k, 1 ≤ p

instance : DecidablePred CountsFromOne := fun k =>
  inferInstanceAs (Decidable (∀ p ∈ Python.positions k, 1 ≤ p))

/-- The position that a parameter gives. The number of arguments that a call must have is not one. -/
def Param.position? : Param → Option Nat
  | .message position | .context position | .domain position => some position
  | .required _ | .comment _ => none

variable {k k' : Keyword} {p : Param} {params : List Param} {n : Nat}

/-! ### Reading parameters -/

theorem one_le_of_position {make : Nat → Param} (h : position make n = .ok p)
    (hmake : (make n).position? = some n) : ∀ m ∈ p.position?, 1 ≤ m := by
  unfold position at h
  split at h
  · cases h
  · next hn =>
    cases h
    rw [hmake]
    rintro m ⟨⟩
    exact Nat.pos_of_ne_zero hn

/-- A parameter that is read does not give the position zero. -/
theorem Param.one_le_of_parse {text : List Char} (h : Param.parse text = .ok p) :
    ∀ n ∈ p.position?, 1 ≤ n := by
  unfold Param.parse at h
  split at h
  · cases h
    exact nofun
  dsimp only at h
  split at h
  · cases h
  split at h
  · -- a call may have to have no arguments, so this number is not checked
    cases h
    exact nofun
  · exact one_le_of_position h rfl
  · exact one_le_of_position h rfl
  · cases h
  · exact one_le_of_position h rfl

theorem Param.position?_of_message? (h : p.message? = some n) : p.position? = some n := by
  cases p with
  | message position => exact h
  | context | domain | required | comment => cases h

/-! ### The keyword that is read -/

theorem countsFromOne_iff : k.CountsFromOne ↔
    1 ≤ k.msgid ∧ (∀ n ∈ k.plural, 1 ≤ n) ∧ (∀ n ∈ k.domain, 1 ≤ n) ∧ ∀ n ∈ k.context, 1 ≤ n := by
  simp only [CountsFromOne, Python.positions, List.mem_append, List.mem_singleton,
    Option.mem_toList, Option.mem_def, or_imp, forall_and, forall_eq]
  tauto

/-- Of the function alone the first argument is the message id. -/
theorem countsFromOne_name (name : String) : CountsFromOne { function := name } := by
  simp [countsFromOne_iff]

theorem CountsFromOne.apply (hk : k.CountsFromOne) (hp : ∀ n ∈ p.position?, 1 ≤ n) :
    (k.apply p).CountsFromOne := by
  rw [countsFromOne_iff] at hk ⊢
  obtain ⟨hmsgid, hplural, hdomain, hcontext⟩ := hk
  cases p with
  | context => exact ⟨hmsgid, hplural, hdomain, hp⟩
  | domain => exact ⟨hmsgid, hplural, hp, hcontext⟩
  | message | required | comment => exact ⟨hmsgid, hplural, hdomain, hcontext⟩

theorem CountsFromOne.foldl_apply (hk : k.CountsFromOne)
    (hparams : ∀ p ∈ params, ∀ n ∈ p.position?, 1 ≤ n) :
    (params.foldl Keyword.apply k).CountsFromOne :=
  List.foldlRecOn params Keyword.apply hk fun _ hk p hp => hk.apply (hparams p hp)

theorem CountsFromOne.withMessages {messages : List Nat} (hk : k.CountsFromOne)
    (hmessages : ∀ n ∈ messages, 1 ≤ n) (h : k.withMessages messages = .ok k') :
    k'.CountsFromOne := by
  rw [countsFromOne_iff] at hk ⊢
  obtain ⟨hmsgid, hplural, hothers⟩ := hk
  unfold Keyword.withMessages at h
  split at h
  · cases h
    exact ⟨hmsgid, hplural, hothers⟩
  · cases h
    exact ⟨hmessages _ List.mem_cons_self, hplural, hothers⟩
  · next msgid plural =>
    cases h
    refine ⟨hmessages msgid List.mem_cons_self, ?_, hothers⟩
    rintro n ⟨⟩
    exact hmessages plural (List.mem_cons_of_mem _ List.mem_cons_self)
  · cases h

theorem countsFromOne_of_parseParams {name text : List Char} (h : parseParams name text = .ok k) :
    k.CountsFromOne := by
  obtain ⟨params, hparams, h⟩ := bind_eq_ok.1 h
  have hone : ∀ p ∈ params, ∀ n ∈ p.position?, 1 ≤ n := by
    intro p hp
    obtain ⟨written, -, hparse⟩ := exists_left_of_mem (mapM_eq_ok_iff.1 hparams) hp
    exact Param.one_le_of_parse hparse
  refine ((countsFromOne_name _).foldl_apply hone).withMessages (fun n hn => ?_) h
  obtain ⟨p, hp, hmessage⟩ := List.mem_filterMap.1 hn
  exact hone p hp n (Param.position?_of_message? hmessage)

/-- A keyword that is read counts its positions from one. -/
theorem countsFromOne_of_parse {spec : String} (h : Keyword.parse spec = .ok k) :
    k.CountsFromOne := by
  rw [Keyword.parse, mapError_eq_ok] at h
  unfold parseSpec at h
  split at h
  · dsimp only at h
    split at h
    · cases h
    · cases h
      exact countsFromOne_name _
  · dsimp only at h
    split at h
    · cases h
    · exact countsFromOne_of_parseParams h

end Keyword

/-! ### The active keywords -/

namespace Keywords

/-- The positions of all active keywords count from one. -/
def CountFromOne (ks : Keywords) : Prop :=
  ∀ k ∈ ks.toList, k.CountsFromOne

variable {ks ks' : Keywords}

theorem countFromOne_empty : empty.CountFromOne :=
  List.forall_mem_nil _

theorem countFromOne_defaults : defaults.CountFromOne := by
  unfold CountFromOne
  decide

theorem CountFromOne.insert {k : Keyword} (h : ks.CountFromOne) (hk : k.CountsFromOne) :
    (ks.insert k).CountFromOne := by
  intro k' hk'
  rcases List.mem_append.1 hk' with hold | hnew
  · exact h k' (List.mem_of_mem_filter hold)
  · rwa [List.mem_singleton.1 hnew]

theorem CountFromOne.registerOne {spec : String} (h : ks.CountFromOne)
    (hspec : ks.registerOne spec = .ok ks') : ks'.CountFromOne := by
  unfold Keywords.registerOne at hspec
  split at hspec
  · cases hspec
    exact countFromOne_empty
  · obtain ⟨k, hk, rfl⟩ := map_eq_ok.1 hspec
    exact h.insert (Keyword.countsFromOne_of_parse hk)

/-- Specifications keep positions that count from one, whether they are all accepted or not. -/
theorem CountFromOne.register (h : ks.CountFromOne) (specs : List String) :
    (ks.register specs).1.CountFromOne := by
  induction specs generalizing ks with
  | nil => exact h
  | cons spec specs ih =>
    unfold Keywords.register
    split
    · next hspec => exact ih (h.registerOne hspec)
    · exact h

end Keywords

end PotExtract
