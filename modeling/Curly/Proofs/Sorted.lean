import Curly.Value.Order
import Mathlib.Data.List.Basic

/-!
# What sorting gives

A sorting either gives all values it was given, each as often as it was given, or fails as the
comparison of two of the values fails (`Sorting.compares_sort`). So no entry of a mapping is lost
when it is sorted by its keys (`sortByKey_cases`), and keys that are in order can always be sorted.
-/

namespace Curly

namespace Sorting

open scoped List

variable {ε α β γ : Type} {less : α → α → Except ε Bool} {all : List α}

/-- Work on values that ends with a result of some kind, or fails as the comparison of two of the
values does. -/
def Compares (less : α → α → Except ε Bool) (all : List α) (P : β → Prop) : Except ε β → Prop
  | .ok b => P b
  | .error failure => ∃ x ∈ all, ∃ y ∈ all, less x y = .error failure

namespace Compares

theorem bind {P : β → Prop} {Q : γ → Prop} {work : Except ε β} {next : β → Except ε γ}
    (hwork : Compares less all P work) (hnext : ∀ b, P b → Compares less all Q (next b)) :
    Compares less all Q (work >>= next) := by
  cases work with
  | error failure => exact hwork
  | ok b => exact hnext b hwork

theorem mono {P Q : β → Prop} {work : Except ε β} (h : Compares less all P work)
    (hPQ : ∀ b, P b → Q b) : Compares less all Q work := by
  cases work with
  | error failure => exact h
  | ok b => exact hPQ b h

theorem ofTwo {x y : α} (hx : x ∈ all) (hy : y ∈ all) :
    Compares less all (fun _ => True) (less x y) := by
  cases hless : less x y with
  | error failure => exact ⟨x, hx, y, hy, hless⟩
  | ok b => trivial

end Compares

/-! ## Runs -/

theorem compares_splitRun (descending : Bool) {last : α} {as : List α} (hlast : last ∈ all)
    (has : as ⊆ all) :
    Compares less all (fun r => r.1 ++ r.2 = as) (splitRun less descending last as) := by
  induction as generalizing last with
  | nil => exact rfl
  | cons a rest ih =>
    rcases List.cons_subset.mp has with ⟨ha, hrest⟩
    rw [splitRun]
    refine (Compares.ofTwo ha hlast).bind fun b _ => ?_
    split
    · refine (ih ha hrest).bind fun r hr => ?_
      exact congrArg (a :: ·) hr
    · exact rfl

theorem compares_firstRun {as : List α} (has : as ⊆ all) :
    Compares less all (fun r => (r.1 ++ r.2).Perm as ∧ r.2.length ≤ as.length - 1)
      (firstRun less as) := by
  rcases as with _ | ⟨a, _ | ⟨b, rest⟩⟩
  · exact ⟨.refl _, Nat.le_refl _⟩
  · exact ⟨.refl _, Nat.le_refl _⟩
  rcases List.cons_subset.mp has with ⟨ha, hmore⟩
  rcases List.cons_subset.mp hmore with ⟨hb, hrest⟩
  rw [firstRun]
  refine (Compares.ofTwo hb ha).bind fun descending _ => ?_
  refine (compares_splitRun descending hb hrest).bind fun r hr => ?_
  rcases r with ⟨run, left⟩
  subst hr
  constructor
  · split
    · exact (List.reverse_perm _).append_right left
    · exact .refl _
  · simp
    omega

/-- Putting a value into its place in a run adds it. -/
theorem compares_place {a : α} {run : List α} (ha : a ∈ all) (hrun : run ⊆ all) :
    Compares less all (fun r => r.Perm (a :: run)) (place less a run) := by
  -- the place is looked for in one of the halves, which are shorter
  induction hlength : run.length using Nat.strongRecOn generalizing run with
  | ind n ih =>
    subst hlength
    rw [place]
    split
    · next hdrop =>
      have hnil : run = [] := by
        rw [List.drop_eq_nil_iff] at hdrop
        exact List.eq_nil_of_length_eq_zero (by omega)
      subst hnil
      exact .refl _
    · next b back hdrop =>
      have hparts := List.take_append_drop (run.length / 2) run
      rw [hdrop] at hparts
      have hsize := congrArg List.length hparts
      rw [List.length_append, List.length_cons] at hsize
      rw [← hparts] at hrun
      rcases List.append_subset.mp hrun with ⟨hfront, hrest⟩
      rcases List.cons_subset.mp hrest with ⟨hb, hback⟩
      refine (Compares.ofTwo ha hb).bind fun lt _ => ?_
      split
      · refine (ih _ (by omega) hfront rfl).bind fun r hr => ?_
        change (r ++ b :: back).Perm (a :: run)
        rw [← hparts, ← List.cons_append]
        exact hr.append_right _
      · refine (ih _ (by omega) hback rfl).bind fun r hr => ?_
        change (run.take (run.length / 2) ++ b :: r).Perm (a :: run)
        calc run.take (run.length / 2) ++ b :: r
          _ ~ run.take (run.length / 2) ++ b :: a :: back := (hr.cons b).append_left _
          _ ~ run.take (run.length / 2) ++ a :: b :: back := (List.Perm.swap a b back).append_left _
          _ ~ a :: (run.take (run.length / 2) ++ b :: back) := List.perm_middle
          _ = a :: run := by rw [hparts]

theorem compares_foldlM_place {as run : List α} (has : as ⊆ all) (hrun : run ⊆ all) :
    Compares less all (fun r => r.Perm (run ++ as))
      (as.foldlM (fun run a => place less a run) run) := by
  induction as generalizing run with
  | nil =>
    rw [List.append_nil]
    exact .refl run
  | cons a rest ih =>
    rcases List.cons_subset.mp has with ⟨ha, hrest⟩
    rw [List.foldlM_cons]
    refine (compares_place ha hrun).bind fun longer hlonger => ?_
    have hall : longer ⊆ all := List.Subset.trans hlonger.subset (List.cons_subset.mpr ⟨ha, hrun⟩)
    refine (ih hrest hall).mono fun r hr => ?_
    exact hr.trans ((hlonger.append_right rest).trans List.perm_middle.symm)

/-- The runs of a list have all its values if there are steps enough for them. -/
theorem compares_runs (least : Nat) {fuel : Nat} {as : List α} (has : as ⊆ all)
    (hfuel : as.length ≤ fuel) :
    Compares less all (fun rs => rs.flatten.Perm as) (runs less least fuel as) := by
  induction fuel generalizing as with
  | zero =>
    cases List.eq_nil_of_length_eq_zero (Nat.le_zero.mp hfuel)
    exact .refl []
  | succ fuel ih =>
    rcases as with _ | ⟨a, more⟩
    · exact .refl []
    rw [runs.eq_def]
    dsimp only
    refine (compares_firstRun has).bind fun r hr => ?_
    rcases r with ⟨run, rest⟩
    rcases hr with ⟨hperm, hlength⟩
    rcases List.append_subset.mp (List.Subset.trans hperm.subset has) with ⟨hrun, hrest⟩
    have htake : rest.take (least - run.length) ⊆ all := List.Subset.trans (List.take_subset _ _) hrest
    have hdrop : rest.drop (least - run.length) ⊆ all := List.Subset.trans (List.drop_subset _ _) hrest
    -- the first run is filled up from the rest, and what is left over is shorter than the list
    refine (compares_foldlM_place htake hrun).bind fun filled hfilled => ?_
    have hshorter : (rest.drop (least - run.length)).length ≤ fuel := by
      rw [List.length_drop]
      simp only [List.length_cons] at hlength hfuel
      omega
    refine (ih hdrop hshorter).bind fun others hothers => ?_
    change (filled ++ others.flatten).Perm (a :: more)
    calc filled ++ others.flatten
      _ ~ (run ++ rest.take (least - run.length)) ++ rest.drop (least - run.length) :=
        hfilled.append hothers
      _ = run ++ rest := by rw [List.append_assoc, List.take_append_drop]
      _ ~ a :: more := hperm

/-! ## Merging -/

theorem compares_merge {as bs : List α} (has : as ⊆ all) (hbs : bs ⊆ all) :
    Compares less all (fun r => r.Perm (as ++ bs)) (merge less as bs) := by
  induction as, bs using merge.induct with
  | case1 bs =>
    rw [merge]
    exact .refl bs
  | case2 as hnil =>
    rcases as with _ | ⟨a, rest⟩
    · exact absurd rfl hnil
    rw [merge, List.append_nil]
    · exact .refl _
    · exact List.cons_ne_nil a rest
  | case3 a as b bs ihright ihleft =>
    rcases List.cons_subset.mp has with ⟨ha, has'⟩
    rcases List.cons_subset.mp hbs with ⟨hb, hbs'⟩
    rw [merge]
    refine (Compares.ofTwo hb ha).bind fun lt _ => ?_
    split
    · refine (ihright has hbs').bind fun r hr => ?_
      exact (hr.cons b).trans List.perm_middle.symm
    · refine (ihleft has' hbs).bind fun r hr => ?_
      exact hr.cons a

theorem compares_foldlM_merge {rs : List (List α)} {as : List α} (has : as ⊆ all)
    (hrs : rs.flatten ⊆ all) :
    Compares less all (fun r => r.Perm (as ++ rs.flatten)) (rs.foldlM (merge less) as) := by
  induction rs generalizing as with
  | nil =>
    rw [List.flatten_nil, List.append_nil]
    exact .refl as
  | cons run rest ih =>
    rw [List.flatten_cons] at hrs
    rcases List.append_subset.mp hrs with ⟨hrun, hrest⟩
    rw [List.foldlM_cons, List.flatten_cons, ← List.append_assoc]
    refine (compares_merge has hrun).bind fun merged hmerged => ?_
    have hall : merged ⊆ all :=
      List.Subset.trans hmerged.subset (List.append_subset.mpr ⟨has, hrun⟩)
    exact (ih hall hrest).mono fun r hr => hr.trans (hmerged.append_right _)

/-- A sorting gives the values it was given, in whatever order, or fails as the comparison of two of
them does. -/
theorem compares_sort (as : List α) :
    Compares less as (fun bs => bs.Perm as) (sort less as) := by
  rw [sort]
  refine (compares_runs _ (List.Subset.refl as) (Nat.le_refl _)).bind fun rs hrs => ?_
  have hall : rs.flatten ⊆ as := hrs.subset
  refine (compares_foldlM_merge (List.nil_subset as) hall).mono fun r hr => ?_
  exact hr.trans hrs

end Sorting

/-- Entries are sorted by their keys, or two of the keys are in no order. -/
theorem sortByKey_cases {α : Type} (entries : List (Key × α)) :
    (∃ sorted, sortByKey entries = .ok sorted ∧ sorted.Perm entries) ∨
      ∃ fault, sortByKey entries = .error fault ∧
        ∃ e ∈ entries, ∃ e' ∈ entries, e.1.less e'.1 = .error fault := by
  have hsort : Sorting.Compares (fun a b => a.1.less b.1) entries (fun sorted => sorted.Perm entries)
      (sortByKey entries) := Sorting.compares_sort entries
  cases h : sortByKey entries with
  | error fault =>
    rw [h] at hsort
    exact .inr ⟨fault, rfl, hsort⟩
  | ok sorted =>
    rw [h] at hsort
    exact .inl ⟨sorted, rfl, hsort⟩

end Curly
