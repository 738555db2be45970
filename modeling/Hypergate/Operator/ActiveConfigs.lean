import Hypergate.Operator.CompilerOrder

/-!
# One HyperConfig per namespace (`activeHyperConfigs`, `common.go`)

The HyperConfigs are sorted by creation time and name, and the first that targets a
namespace gets it. The others go into `conflicts` with the name of the winner.

- `Owns`: the winner, said of the list alone.
- `Judged`: what the loop has decided about the HyperConfigs it has passed; one step
  keeps it.
- `active_hyper_configs_right`: winners and conflicts are those of `Owns`, in whatever
  order the HyperConfigs are listed.
-/

namespace Hypergate.Operator

open Lib

/-- The HyperConfig that owns a namespace: the oldest that targets it, the lowest name
among those of one time. -/
structure Owns (items : List HyperConfig) (ns : String) (hc : HyperConfig) : Prop where
  mem : hc ∈ items
  target : targetNamespaceOf hc = ns
  oldest : ∀ hc' ∈ items, targetNamespaceOf hc' = ns →
    hc.created < hc'.created ∨ hc.created = hc'.created ∧ hc.name ≤ hc'.name

theorem Owns.unique {l : Listing HyperConfig HyperConfig.name} {ns : String}
    {hc hc' : HyperConfig} (h : Owns l.items ns hc) (h' : Owns l.items ns hc') : hc = hc' := by
  refine l.eq_of_key h.mem h'.mem ?_
  rcases h.oldest hc' h'.mem h'.target with hlt | ⟨heq, hle⟩
  · rcases h'.oldest hc h.mem h.target with hlt' | ⟨heq', -⟩
    · omega
    · omega
  · rcases h'.oldest hc h.mem h.target with hlt' | ⟨-, hle'⟩
    · omega
    · exact String.le_antisymm hle hle'

/-! ## The loop -/

/-- What the loop has decided about the HyperConfigs it has passed: each has won its
namespace or has lost it to the first of that namespace. -/
structure Judged (passed : List HyperConfig) (acc : AMap String HyperConfig × AMap String String) :
    Prop where
  winner : ∀ ns, acc.1.lookup ns = passed.find? fun hc => decide (targetNamespaceOf hc = ns)
  won : ∀ hc ∈ passed, acc.1.lookup (targetNamespaceOf hc) = some hc →
    acc.2.lookup hc.name = none
  lost : ∀ hc ∈ passed, ∀ owner, acc.1.lookup (targetNamespaceOf hc) = some owner → owner ≠ hc →
    acc.2.lookup hc.name = some owner.name
  others : ∀ name, name ∉ passed.map HyperConfig.name → acc.2.lookup name = none

theorem Judged.init : Judged [] (∅, ∅) where
  winner _ := rfl
  won _ h := absurd h List.not_mem_nil
  lost _ h := absurd h List.not_mem_nil
  others _ _ := rfl

/-- The next HyperConfig, one whose name has not come yet. -/
theorem Judged.step {passed : List HyperConfig} {acc : AMap String HyperConfig × AMap String String}
    (h : Judged passed acc) {hc : HyperConfig} (hnew : hc.name ∉ passed.map HyperConfig.name) :
    Judged (passed ++ [hc]) (claimNamespace acc hc) := by
  have hfind : ∀ ns, (claimNamespace acc hc).1.lookup ns
      = (passed ++ [hc]).find? fun hc => decide (targetNamespaceOf hc = ns) := by
    intro ns
    rw [List.find?_append, ← h.winner ns]
    exact lookup_claimNamespaces (l := [hc]) ns
  have hname : ∀ hc' ∈ passed, hc'.name ≠ hc.name := by
    intro hc' hmem heq
    exact hnew (heq ▸ List.mem_map_of_mem hmem)
  cases hown : acc.1.lookup (targetNamespaceOf hc) with
  | some owner =>
    -- the namespace is taken: the winners stay, and there is one conflict more
    have hstep : claimNamespace acc hc = (acc.1, acc.2.insert hc.name owner.name) := by
      unfold claimNamespace
      rw [hown]
    have howner : owner ∈ passed := by
      rw [h.winner] at hown
      exact List.mem_of_find?_eq_some hown
    rw [hstep] at hfind ⊢
    refine ⟨hfind, ?_, ?_, ?_⟩
    · intro hc' hmem hwon
      rcases List.mem_append.mp hmem with hmem | hmem
      · rw [AMap.lookup_insert_ite, if_neg (hname hc' hmem)]
        exact h.won hc' hmem hwon
      · obtain rfl := List.mem_singleton.mp hmem
        rw [show acc.1.lookup (targetNamespaceOf hc') = some owner from hown] at hwon
        exact absurd (congrArg HyperConfig.name (Option.some.inj hwon)) (hname owner howner)
    · intro hc' hmem owner' hlook hne
      rcases List.mem_append.mp hmem with hmem | hmem
      · rw [AMap.lookup_insert_ite, if_neg (hname hc' hmem)]
        exact h.lost hc' hmem owner' hlook hne
      · obtain rfl := List.mem_singleton.mp hmem
        rw [show acc.1.lookup (targetNamespaceOf hc') = some owner from hown] at hlook
        rw [AMap.lookup_insert_ite, if_pos rfl, Option.some.inj hlook]
    · intro name hnot
      rw [List.map_append, List.mem_append, not_or] at hnot
      have hne : name ≠ hc.name := fun heq => hnot.2 (heq ▸ List.mem_singleton_self _)
      rw [AMap.lookup_insert_ite, if_neg hne]
      exact h.others name hnot.1
  | none =>
    -- the namespace is free: nobody passed so far targets it
    have hstep : claimNamespace acc hc = (acc.1.insert (targetNamespaceOf hc) hc, acc.2) := by
      unfold claimNamespace
      rw [hown]
    have hns : ∀ hc' ∈ passed, targetNamespaceOf hc' ≠ targetNamespaceOf hc := by
      intro hc' hmem heq
      rw [h.winner] at hown
      exact List.find?_eq_none.mp hown hc' hmem (decide_eq_true heq)
    rw [hstep] at hfind ⊢
    refine ⟨hfind, ?_, ?_, ?_⟩
    · intro hc' hmem hwon
      rcases List.mem_append.mp hmem with hmem | hmem
      · rw [AMap.lookup_insert_ite, if_neg (hns hc' hmem)] at hwon
        exact h.won hc' hmem hwon
      · obtain rfl := List.mem_singleton.mp hmem
        exact h.others hc'.name hnew
    · intro hc' hmem owner hlook hne
      rcases List.mem_append.mp hmem with hmem | hmem
      · rw [AMap.lookup_insert_ite, if_neg (hns hc' hmem)] at hlook
        exact h.lost hc' hmem owner hlook hne
      · obtain rfl := List.mem_singleton.mp hmem
        rw [AMap.lookup_insert_ite, if_pos rfl] at hlook
        exact absurd (Option.some.inj hlook).symm hne
    · intro name hnot
      rw [List.map_append, List.mem_append, not_or] at hnot
      exact h.others name hnot.1

theorem Judged.run {l : List HyperConfig} (hl : (l.map HyperConfig.name).Nodup) :
    Judged l (l.foldl claimNamespace (∅, ∅)) := by
  induction l using List.reverseRecOn with
  | nil => exact .init
  | append_singleton l hc ih =>
    rw [List.map_append, List.nodup_append] at hl
    rw [List.foldl_append]
    refine (ih hl.1).step fun hmem => ?_
    exact hl.2.2 hc.name hmem hc.name (List.mem_singleton_self _) rfl

/-! ## Winners and conflicts -/

/-- What was decided about the HyperConfigs of a listing. -/
theorem judged_active (l : Listing HyperConfig HyperConfig.name) :
    Judged (l.items.insertionSort fun a b => b.less a = false) (activeHyperConfigs l.items) := by
  refine Judged.run ?_
  exact ((List.perm_insertionSort _ _).map HyperConfig.name).nodup_iff.mpr l.nodup

theorem lookup_active_iff (l : Listing HyperConfig HyperConfig.name) (ns : String)
    (hc : HyperConfig) :
    (activeHyperConfigs l.items).1.lookup ns = some hc ↔ Owns l.items ns hc := by
  have howns : ∀ hc, (activeHyperConfigs l.items).1.lookup ns = some hc → Owns l.items ns hc := by
    intro hc hlook
    obtain ⟨hmem, htarget⟩ := of_lookup_active hlook
    refine ⟨hmem, htarget, fun hc' hmem' htarget' => ?_⟩
    exact less_eq_false_iff.mp (less_of_lookup_active hlook hmem' htarget')
  constructor
  · exact howns hc
  · intro hown
    obtain ⟨owner, hlook⟩ := exists_active hown.mem
    rw [hown.target] at hlook
    rw [hlook, (howns owner hlook).unique hown]

/-- For every list of HyperConfigs and every permutation of it: the result is the same, a
namespace has the winner that `Owns` it, each namespace that some HyperConfig targets has
exactly one, and each HyperConfig either is the winner of its namespace and has no conflict
or has the winner's name in `conflicts`. No other name is in `conflicts`. -/
theorem active_hyper_configs_right (l l' : Listing HyperConfig HyperConfig.name)
    (hperm : l'.items.Perm l.items) :
    activeHyperConfigs l'.items = activeHyperConfigs l.items
      ∧ (∀ ns hc, (activeHyperConfigs l.items).1.lookup ns = some hc ↔ Owns l.items ns hc)
      ∧ (∀ hc ∈ l.items, ∃! owner, Owns l.items (targetNamespaceOf hc) owner)
      ∧ (∀ hc ∈ l.items, ∀ owner, Owns l.items (targetNamespaceOf hc) owner →
          owner = hc ∧ (activeHyperConfigs l.items).2.lookup hc.name = none
            ∨ owner ≠ hc ∧ (activeHyperConfigs l.items).2.lookup hc.name = some owner.name)
      ∧ ∀ name, name ∉ l.items.map HyperConfig.name →
          (activeHyperConfigs l.items).2.lookup name = none := by
  have hjudged := judged_active l
  refine ⟨activeHyperConfigs_perm hperm, lookup_active_iff l, ?_, ?_, ?_⟩
  · intro hc hmem
    obtain ⟨owner, hlook⟩ := exists_active hmem
    refine ⟨owner, (lookup_active_iff l _ owner).mp hlook, fun other hother => ?_⟩
    exact hother.unique ((lookup_active_iff l _ owner).mp hlook)
  · intro hc hmem owner hown
    have hsorted := (List.mem_insertionSort fun a b : HyperConfig => b.less a = false).mpr hmem
    have hlook := (lookup_active_iff l _ owner).mpr hown
    by_cases hsame : owner = hc
    · rw [hsame] at hlook
      exact .inl ⟨hsame, hjudged.won hc hsorted hlook⟩
    · exact .inr ⟨hsame, hjudged.lost hc hsorted owner hlook hsame⟩
  · intro name hnot
    refine hjudged.others name fun hmem => hnot ?_
    exact ((List.perm_insertionSort _ _).map HyperConfig.name).mem_iff.mp hmem

/-- Two HyperConfigs of one namespace, listed the younger first. -/
def twoConfigs : Listing HyperConfig HyperConfig.name where
  items := [{ name := "newer", created := 2, spec := {} },
    { name := "older", created := 1, spec := { targetNamespace := "hyper-system" } }]
  nodup := by decide

/-- The same, the older first. -/
def twoConfigsRelisted : Listing HyperConfig HyperConfig.name where
  items := [{ name := "older", created := 1, spec := { targetNamespace := "hyper-system" } },
    { name := "newer", created := 2, spec := {} }]
  nodup := by decide

theorem active_hyper_configs_right_two :
    twoConfigsRelisted.items.Perm twoConfigs.items
      ∧ activeHyperConfigs twoConfigsRelisted.items = activeHyperConfigs twoConfigs.items := by
  have hperm : twoConfigsRelisted.items.Perm twoConfigs.items := List.Perm.swap _ _ _
  exact ⟨hperm, (active_hyper_configs_right twoConfigs twoConfigsRelisted hperm).1⟩

end Hypergate.Operator
