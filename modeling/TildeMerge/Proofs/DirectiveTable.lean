import TildeMerge.Proofs.Dispatch
import Mathlib.Data.List.Basic
import Mathlib.Data.List.Induction

namespace TildeMerge

open Markup

variable {ds : Directives} {calls : List (Text × Directive)}

def Directives.registerAll (ds : Directives) (calls : List (Text × Directive)) : Directives :=
  calls.foldl (fun ds (keyword, directive) ↦ ds.register keyword directive) ds

def LastFor (calls : List (Text × Directive)) (keyword : Text) (directive : Directive) : Prop :=
  ∃ before after, calls = before ++ (keyword, directive) :: after ∧ keyword ∉ after.map Prod.fst

theorem lastFor_iff {keyword : Text} {directive : Directive} :
    LastFor calls keyword directive ↔ calls.reverse.lookup keyword = some directive := by
  rw [List.lookup_eq_some_iff]
  constructor
  · rintro ⟨before, after, rfl, hafter⟩
    refine ⟨after.reverse, before.reverse, by simp, ?_⟩
    intro entry hentry
    rw [bne_iff_ne]
    rintro rfl
    exact hafter (List.mem_map_of_mem (List.mem_reverse.1 hentry))
  · rintro ⟨after, before, hcalls, hafter⟩
    refine ⟨before.reverse, after.reverse, by simpa using congrArg List.reverse hcalls, ?_⟩
    intro hmem
    obtain ⟨entry, hentry, rfl⟩ := List.mem_map.1 hmem
    have hne := hafter entry (List.mem_reverse.1 hentry)
    rw [bne_self_eq_false] at hne
    cases hne

theorem LastFor.unique {keyword : Text} {directive other : Directive}
    (h : LastFor calls keyword directive) (h' : LastFor calls keyword other) : directive = other := by
  rw [lastFor_iff] at h h'
  exact Option.some.inj (h.symm.trans h')

theorem exists_lastFor (keyword : Text) (h : keyword ∈ calls.map Prod.fst) :
    ∃ directive, LastFor calls keyword directive := by
  cases hlookup : calls.reverse.lookup keyword with
  | some directive => exact ⟨directive, lastFor_iff.2 hlookup⟩
  | none =>
    obtain ⟨entry, hentry, rfl⟩ := List.mem_map.1 h
    have hne := List.lookup_eq_none_iff.1 hlookup entry (List.mem_reverse.2 hentry)
    rw [bne_self_eq_false] at hne
    cases hne

theorem keywords_put (keyword : Text) (directive : Directive) (table : List (Text × Directive)) :
    (Directives.put keyword directive table).map Prod.fst =
      if keyword ∈ table.map Prod.fst then table.map Prod.fst
      else table.map Prod.fst ++ [keyword] := by
  induction table with
  | nil => rfl
  | cons entry rest ih =>
    obtain ⟨k, d⟩ := entry
    rw [Directives.put, List.map_cons]
    by_cases hk : k = keyword
    · rw [if_pos hk, if_pos (by rw [hk]; exact List.mem_cons_self), List.map_cons]
    · rw [if_neg hk, List.map_cons, ih]
      by_cases hmem : keyword ∈ rest.map Prod.fst
      · rw [if_pos hmem, if_pos (List.mem_cons_of_mem k hmem)]
      · have hnew : keyword ∉ k :: rest.map Prod.fst := by simp [hmem, Ne.symm hk]
        rw [if_neg hmem, if_neg hnew, List.cons_append]

theorem keywords_register (ds : Directives) (keyword : Text) (directive : Directive) :
    (ds.register keyword directive).keywords =
      if keyword ∈ ds.keywords then ds.keywords else ds.keywords ++ [keyword] :=
  keywords_put keyword directive ds.table

/-- The keywords of a table are those of the registrations, each once and in the order in which they
came first. -/
structure Directives.InOrder (ds : Directives) (calls : List (Text × Directive)) : Prop where
  mem_keywords : ∀ keyword, keyword ∈ ds.keywords ↔ keyword ∈ calls.map Prod.fst
  ordered : ds.keywords.Pairwise fun j k ↦
    (calls.map Prod.fst).idxOf j < (calls.map Prod.fst).idxOf k

theorem Directives.InOrder.register (h : ds.InOrder calls) (keyword : Text) (directive : Directive) :
    (ds.register keyword directive).InOrder (calls ++ [(keyword, directive)]) := by
  have hold : ds.keywords.Pairwise fun j k ↦
      (calls.map Prod.fst ++ [keyword]).idxOf j < (calls.map Prod.fst ++ [keyword]).idxOf k := by
    refine h.ordered.imp_of_mem ?_
    intro j k hj hk hlt
    rwa [List.idxOf_append_of_mem ((h.mem_keywords j).1 hj),
      List.idxOf_append_of_mem ((h.mem_keywords k).1 hk)]
  refine ⟨?_, ?_⟩
  · intro k
    rw [keywords_register, List.map_append, List.mem_append, ← h.mem_keywords]
    split
    · rename_i hmem
      constructor
      · exact .inl
      · rintro (hk | hk)
        · exact hk
        · rwa [List.mem_singleton.1 hk]
    · rw [List.mem_append]
      rfl
  · rw [keywords_register, List.map_append]
    split
    · exact hold
    · rename_i hmem
      refine List.pairwise_append.2 ⟨hold, List.pairwise_singleton _ _, ?_⟩
      intro j hj k hk
      obtain rfl := List.mem_singleton.1 hk
      have hj' := (h.mem_keywords j).1 hj
      have hk' : k ∉ calls.map Prod.fst := fun hk ↦ hmem ((h.mem_keywords k).2 hk)
      simp only [List.map_cons, List.map_nil]
      rw [List.idxOf_append_of_mem hj', List.idxOf_append_of_notMem hk']
      exact Nat.lt_add_right _ (List.idxOf_lt_length_iff.2 hj')

theorem registerAll_append (ds : Directives) (calls more : List (Text × Directive)) :
    ds.registerAll (calls ++ more) = (ds.registerAll calls).registerAll more :=
  List.foldl_append

theorem inOrder_registerAll (calls : List (Text × Directive)) :
    (Directives.empty.registerAll calls).InOrder calls := by
  induction calls using List.reverseRecOn with
  | nil => exact ⟨fun _ ↦ Iff.rfl, .nil⟩
  | append_singleton calls entry ih =>
    rw [registerAll_append]
    exact ih.register entry.1 entry.2

theorem lookup_registerAll (calls : List (Text × Directive)) (keyword : Text) :
    (Directives.empty.registerAll calls).table.lookup keyword = calls.reverse.lookup keyword := by
  induction calls using List.reverseRecOn with
  | nil => rfl
  | append_singleton calls entry ih =>
    rw [registerAll_append, List.reverse_append, List.reverse_singleton, List.singleton_append,
      lookup_cons_eq_ite, ← ih]
    exact lookup_put entry.1 keyword entry.2 _

/-- How a table answers after these registrations. -/
structure Directives.Answers (ds : Directives) (calls : List (Text × Directive)) : Prop
    extends Directives.InOrder ds calls where
  contains_iff : ∀ keyword, ds.contains keyword = true ↔ keyword ∈ calls.map Prod.fst
  keeps_place : ∀ keyword ∈ calls.map Prod.fst, ∀ directive,
    (ds.register keyword directive).keywords = ds.keywords
  exists_last : ∀ keyword ∈ calls.map Prod.fst, ∃ directive, LastFor calls keyword directive
  runs_last : ∀ (head : Head) (directive : Directive), LastFor calls head.directive directive →
    ∀ body record options,
      ds.dispatch head body record options = directive head body record options
  refuses : ∀ head : Head, head.directive ∉ calls.map Prod.fst → ∀ body record options,
    ds.dispatch head body record options = Logged.fail (.unknownDirective head.directive)
  /-- The refusal has no other cause, as long as it is no reply of the directive itself. -/
  unknown_iff : ∀ (head : Head) (body : Text) (record : Value) (options : Options),
    (ds.dispatch head body record options).result = .error (.unknownDirective head.directive) ↔
      head.directive ∉ calls.map Prod.fst ∨ ∃ directive, LastFor calls head.directive directive ∧
        (directive head body record options).result =
          .error (.unknownDirective head.directive)

theorem answers_registerAll (calls : List (Text × Directive)) :
    (Directives.empty.registerAll calls).Answers calls := by
  have hin := inOrder_registerAll calls
  have hruns (head : Head) (directive : Directive) (h : LastFor calls head.directive directive)
      (body : Text) (record : Value) (options : Options) :
      (Directives.empty.registerAll calls).dispatch head body record options =
        directive head body record options := by
    rw [Directives.dispatch, lookup_registerAll, lastFor_iff.1 h]
  have hrefuses (head : Head) (h : head.directive ∉ calls.map Prod.fst) (body : Text)
      (record : Value) (options : Options) :
      (Directives.empty.registerAll calls).dispatch head body record options =
        Logged.fail (.unknownDirective head.directive) := by
    have hnone : (Directives.empty.registerAll calls).contains head.directive = false := by
      rw [Directives.contains, List.contains_eq_mem, decide_eq_false_iff_not, hin.mem_keywords]
      exact h
    rw [Directives.dispatch, lookup_of_contains_eq_false hnone]
  refine ⟨hin, ?_, ?_, exists_lastFor, hruns, hrefuses, ?_⟩
  · intro keyword
    rw [Directives.contains, List.contains_iff_mem, hin.mem_keywords]
  · intro keyword hmem directive
    rw [keywords_register, if_pos ((hin.mem_keywords keyword).2 hmem)]
  · intro head body record options
    by_cases hmem : head.directive ∈ calls.map Prod.fst
    · obtain ⟨directive, hlast⟩ := exists_lastFor _ hmem
      rw [hruns head directive hlast]
      constructor
      · intro herr
        exact .inr ⟨directive, hlast, herr⟩
      · rintro (hnot | ⟨other, hother, herr⟩)
        · exact absurd hmem hnot
        · rwa [hlast.unique hother]
    · rw [hrefuses head hmem]
      exact iff_of_true rfl (.inl hmem)

/-- After any registrations, made on the empty table or on the one that holds `for`, a table lists each
keyword once, in the order of the first registrations, and renders a block with the directive that was
registered last. It refuses a block whose keyword was never registered. -/
theorem table_after_registrations (calls : List (Text × Directive)) :
    (Directives.empty.registerAll calls).Answers calls ∧
      (Directives.standard.registerAll calls).Answers
        ((Directives.forKeyword, Directive.forEach) :: calls) :=
  ⟨answers_registerAll calls, answers_registerAll ((Directives.forKeyword, Directive.forEach) :: calls)⟩

end TildeMerge
