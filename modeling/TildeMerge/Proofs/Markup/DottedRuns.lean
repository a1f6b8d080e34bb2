import TildeMerge.Proofs.Markup.LeftoverLines
import TildeMerge.Proofs.Markup.Positions
import TildeMerge.Proofs.Splicing

namespace TildeMerge.Markup

variable {c : Char} {t u w run run' before path : Text} {m n n' k : Nat} {p : Placeholder}
variable {refs : List Placeholder}

/-- A run of path characters that begins at the byte offset, and that no path character continues on either
side. -/
def RunAt (t run : Text) (n : Nat) : Prop :=
  run ≠ [] ∧ (∀ c ∈ run, InPathClass c) ∧ ∃ before after, t = before ++ (run ++ after) ∧
    Text.size before = n ∧ (∀ c ∈ before.getLast?, ¬ InPathClass c) ∧
    ∀ c ∈ after.head?, ¬ InPathClass c

/-- A run that is cut at its first dot, where something follows it. -/
def CutsAtDot (run before path : Text) : Prop :=
  run = before ++ '.' :: path ∧ '.' ∉ before ∧ path ≠ []

def Placeholder.BeginsIn (p : Placeholder) (run : Text) (n : Nat) : Prop :=
  n ≤ p.start ∧ p.start < n + run.size

/-- The placeholders that the runs of a body give. -/
structure ItemRefsOf (t : Text) (refs : List Placeholder) : Prop where
  inOrder : InOrder refs
  dotted : ∀ n run before path, RunAt t run n → CutsAtDot run before path →
    ∀ p, p ∈ refs ∧ p.BeginsIn run n ↔ p = ⟨n + before.size, n + run.size, path⟩
  undotted : ∀ n run, RunAt t run n → (∀ before path, ¬ CutsAtDot run before path) →
    ∀ p ∈ refs, ¬ p.BeginsIn run n
  exists_run : ∀ p ∈ refs, ∃ n run, RunAt t run n ∧ p.BeginsIn run n

@[elab_as_elim]
theorem runs_induction {motive : Text → Prop} (nil : motive [])
    (plain : ∀ c t, isPathChar c = false → motive t → motive (c :: t))
    (run : ∀ w t, w ≠ [] → IsRun w → EndsRun t → motive t → motive (w ++ t)) (t : Text) :
    motive t := by
  induction hn : t.length using Nat.strong_induction_on generalizing t with
  | _ n ih =>
    subst hn
    cases t with
    | nil => exact nil
    | cons c t =>
      cases hc : isPathChar c with
      | false => exact plain c t hc (ih t.length (Nat.lt_succ_self _) t rfl)
      | true =>
        obtain ⟨u, ht, hu⟩ := exists_endsRun (c :: t)
        have hne : (runs (c :: t)).first ≠ [] := by
          rw [runs_cons_path hc]
          exact List.cons_ne_nil c _
        have hlt : u.length < (c :: t).length := by
          rw [ht, List.length_append]
          exact Nat.lt_add_of_pos_left (List.length_pos_iff.2 hne)
        rw [ht]
        exact run _ u hne (isRun_first _) hu (ih u.length hlt u rfl)

theorem not_runAt_nil : ¬ RunAt [] run n := by
  rintro ⟨hne, -, before, after, htext, -⟩
  rw [eq_comm, List.append_eq_nil_iff, List.append_eq_nil_iff] at htext
  exact hne htext.2.1

theorem forall_getLast?_cons (hc : ¬ InPathClass c) :
    (∀ d ∈ (c :: t).getLast?, ¬ InPathClass d) ↔ ∀ d ∈ t.getLast?, ¬ InPathClass d := by
  cases t with
  | nil => simp [hc]
  | cons d t => rw [List.getLast?_cons_cons]

theorem runAt_cons (hc : isPathChar c = false) :
    RunAt (c :: t) run n ↔ ∃ k, n = c.utf8Size + k ∧ RunAt t run k := by
  have hbreak : ¬ InPathClass c := by
    rw [← isPathChar_iff, hc]
    exact Bool.false_ne_true
  constructor
  · rintro ⟨hne, hrun, before, after, htext, rfl, hleft, hright⟩
    cases before with
    | nil =>
      obtain ⟨d, r, rfl⟩ := List.exists_cons_of_ne_nil hne
      obtain ⟨rfl, -⟩ := List.cons.inj htext
      exact absurd (hrun c List.mem_cons_self) hbreak
    | cons d before =>
      obtain ⟨rfl, ht⟩ := List.cons.inj htext
      exact ⟨Text.size before, Text.size_cons c before, hne, hrun, before, after, ht, rfl,
        (forall_getLast?_cons hbreak).1 hleft, hright⟩
  · rintro ⟨k, rfl, hne, hrun, before, after, rfl, rfl, hleft, hright⟩
    exact ⟨hne, hrun, c :: before, after, rfl, Text.size_cons c before,
      (forall_getLast?_cons hbreak).2 hleft, hright⟩

theorem runAt_append (hne : w ≠ []) (hw : IsRun w) (hu : EndsRun u) :
    RunAt (w ++ u) run n ↔ n = 0 ∧ run = w ∨ ∃ k, n = w.size + k ∧ RunAt u run k := by
  constructor
  · rintro ⟨hrunne, hrun, before, after, htext, rfl, hleft, hright⟩
    have hprefix : before <+: w ++ u := ⟨run ++ after, htext.symm⟩
    rcases List.prefix_or_prefix_of_prefix hprefix (List.prefix_append w u) with hshort | hlong
    · -- Only the empty text stands before a run that begins in the first one.
      have hbefore : before = [] := by
        by_contra hsome
        have hlast := hleft _ (List.getLast?_eq_some_getLast hsome)
        have hmem : before.getLast hsome ∈ w := hshort.subset (List.getLast_mem hsome)
        exact hlast (isRun_iff.1 hw _ hmem)
      subst hbefore
      have hfirst := congrArg (fun t ↦ (runs t).first) htext
      simp only [List.nil_append] at hfirst
      rw [runs_run_append hw, runs_run_append (isRun_iff.2 hrun), first_eq_nil hu,
        first_eq_nil (endsRun_iff.2 hright), List.append_nil, List.append_nil] at hfirst
      exact .inl ⟨rfl, hfirst.symm⟩
    · obtain ⟨r, rfl⟩ := hlong
      rw [List.append_assoc, List.append_cancel_left_eq] at htext
      refine .inr ⟨Text.size r, Text.size_append w r, hrunne, hrun, r, after, htext, rfl, ?_, hright⟩
      intro e he
      refine hleft e ?_
      rw [List.getLast?_append, Option.mem_def.1 he]
      rfl
  · rintro (⟨rfl, rfl⟩ | ⟨k, rfl, hrunne, hrun, before, after, rfl, rfl, hleft, hright⟩)
    · refine ⟨hne, isRun_iff.1 hw, [], u, rfl, rfl, ?_, endsRun_iff.1 hu⟩
      intro e he
      cases he
    · refine ⟨hrunne, hrun, w ++ before, after, (List.append_assoc _ _ _).symm, Text.size_append w before,
        ?_, hright⟩
      cases before with
      | nil =>
        -- The run would continue the one before it.
        obtain ⟨d, r, rfl⟩ := List.exists_cons_of_ne_nil hrunne
        exact absurd (hrun d List.mem_cons_self) (endsRun_iff.1 hu d rfl)
      | cons d r =>
        rw [List.getLast?_append_of_ne_nil _ (List.cons_ne_nil d r)]
        exact hleft

theorem RunAt.eq_of_overlap (h : RunAt t run n) (h' : RunAt t run' n') (hk : n ≤ k ∧ k < n + run.size)
    (hk' : n' ≤ k ∧ k < n' + run'.size) : n = n' ∧ run = run' := by
  induction t using runs_induction generalizing n n' k with
  | nil => exact absurd h not_runAt_nil
  | plain c t hc ih =>
    obtain ⟨j, rfl, hj⟩ := (runAt_cons hc).1 h
    obtain ⟨j', rfl, hj'⟩ := (runAt_cons hc).1 h'
    obtain ⟨rfl, hrun⟩ := ih (k := k - c.utf8Size) hj hj' (by omega) (by omega)
    exact ⟨rfl, hrun⟩
  | run w t hne hw ht ih =>
    rcases (runAt_append hne hw ht).1 h with ⟨rfl, rfl⟩ | ⟨j, rfl, hj⟩
    · rcases (runAt_append hne hw ht).1 h' with ⟨rfl, rfl⟩ | ⟨j', rfl, hj'⟩
      · exact ⟨rfl, rfl⟩
      · omega
    · rcases (runAt_append hne hw ht).1 h' with ⟨rfl, rfl⟩ | ⟨j', rfl, hj'⟩
      · omega
      · obtain ⟨rfl, hrun⟩ := ih (k := k - Text.size w) hj hj' (by omega) (by omega)
        exact ⟨rfl, hrun⟩

theorem append_dot_inj {before' path' : Text} (h : '.' ∉ before) (h' : '.' ∉ before')
    (heq : before ++ '.' :: path = before' ++ '.' :: path') : before = before' ∧ path = path' := by
  have htake {s r : Text} (hs : '.' ∉ s) : (s ++ '.' :: r).takeWhile (· != '.') = s := by
    rw [List.takeWhile_append_of_pos]
    · simp
    · intro c hc
      simpa using ne_of_mem_of_not_mem hc hs
  have hbefore : before = before' := by rw [← htake h, heq, htake h']
  rw [hbefore, List.append_cancel_left_eq] at heq
  exact ⟨hbefore, (List.cons.inj heq).2⟩

theorem CutsAtDot.unique {before' path' : Text} (h : CutsAtDot run before path)
    (h' : CutsAtDot run before' path') : before = before' ∧ path = path' :=
  append_dot_inj h.2.1 h'.2.1 (h.1.symm.trans h'.1)

theorem mem_locate_run (hw : IsRun w) : p ∈ locate m (itemPieces w) ↔
    ∃ before path, CutsAtDot w before path ∧ p = ⟨m + before.size, m + w.size, path⟩ := by
  by_cases hdot : '.' ∈ w
  · obtain ⟨before, path, rfl, hbefore⟩ := List.eq_append_cons_of_mem hdot
    rw [itemPieces_append_of_plain hbefore, locate_plain_append]
    by_cases hpath : path = []
    · subst hpath
      refine iff_of_false List.not_mem_nil ?_
      rintro ⟨before', path', ⟨hcut, hbefore', hpath'⟩, -⟩
      exact hpath' (append_dot_inj hbefore hbefore' hcut).2.symm
    · have hrun : IsRun path := fun c hc ↦ hw c (List.mem_append_right _ (List.mem_cons_of_mem _ hc))
      have hpieces : itemPieces ('.' :: path) = [.placeholder path] := by
        have h := itemPieces_placeholder hpath hrun endsRun_nil
        rwa [List.append_nil] at h
      have hstop : m + Text.size before + 1 + Text.size path = m + Text.size (before ++ '.' :: path) := by
        have hone : Char.utf8Size '.' = 1 := rfl
        rw [Text.size_append, Text.size_cons, hone]
        omega
      rw [hpieces, locate, locate, List.mem_singleton, hstop]
      constructor
      · rintro rfl
        exact ⟨before, path, ⟨rfl, hbefore, hpath⟩, rfl⟩
      · rintro ⟨before', path', ⟨hcut, hbefore', -⟩, rfl⟩
        obtain ⟨rfl, rfl⟩ := append_dot_inj hbefore hbefore' hcut
        rfl
  · have hplain : itemPieces w = w.map .plain := by
      have h := itemPieces_append_of_plain hdot []
      rwa [List.append_nil, show itemPieces [] = [] from rfl, List.append_nil] at h
    rw [hplain, locate_plain]
    refine iff_of_false List.not_mem_nil ?_
    rintro ⟨before, path, ⟨rfl, -, -⟩, -⟩
    exact hdot (List.mem_append_right _ List.mem_cons_self)

theorem mem_locate_itemPieces : p ∈ locate m (itemPieces t) ↔ ∃ n run before path,
    RunAt t run n ∧ CutsAtDot run before path ∧
      p = ⟨m + n + before.size, m + n + run.size, path⟩ := by
  induction t using runs_induction generalizing m with
  | nil =>
    refine iff_of_false List.not_mem_nil ?_
    rintro ⟨n, run, before, path, hrun, -⟩
    exact not_runAt_nil hrun
  | plain c t hc ih =>
    have hdot : c ≠ '.' := by
      rintro rfl
      cases hc
    rw [itemPieces_cons hdot, locate, ih]
    constructor
    · rintro ⟨k, run, before, path, hrun, hcut, rfl⟩
      exact ⟨c.utf8Size + k, run, before, path, (runAt_cons hc).2 ⟨k, rfl, hrun⟩, hcut, by
        simp only [Nat.add_assoc]⟩
    · rintro ⟨n, run, before, path, hrun, hcut, rfl⟩
      obtain ⟨k, rfl, hk⟩ := (runAt_cons hc).1 hrun
      exact ⟨k, run, before, path, hk, hcut, by simp only [Nat.add_assoc]⟩
  | run w t hne hw ht ih =>
    have hdot : Char.utf8Size '.' = 1 := rfl
    rw [itemPieces_append w ht, locate_append hdot, itemPieces_text, List.mem_append,
      mem_locate_run hw, ih]
    constructor
    · rintro (⟨before, path, hcut, rfl⟩ | ⟨k, run, before, path, hrun, hcut, rfl⟩)
      · exact ⟨0, w, before, path, (runAt_append hne hw ht).2 (.inl ⟨rfl, rfl⟩), hcut, rfl⟩
      · have hlater := (runAt_append hne hw ht).2 (.inr ⟨k, rfl, hrun⟩)
        exact ⟨Text.size w + k, run, before, path, hlater, hcut, by simp only [Nat.add_assoc]⟩
    · rintro ⟨n, run, before, path, hrun, hcut, rfl⟩
      rcases (runAt_append hne hw ht).1 hrun with ⟨rfl, rfl⟩ | ⟨k, rfl, hk⟩
      · exact .inl ⟨before, path, hcut, rfl⟩
      · exact .inr ⟨k, run, before, path, hk, hcut, by simp only [Nat.add_assoc]⟩

theorem mem_itemRefs_iff : p ∈ itemRefs t ↔ ∃ n run before path, RunAt t run n ∧
    CutsAtDot run before path ∧ p = ⟨n + before.size, n + run.size, path⟩ := by
  rw [itemRefs, mem_locate_itemPieces]
  simp only [Nat.zero_add]

theorem CutsAtDot.size_lt (h : CutsAtDot run before path) : before.size < run.size := by
  obtain ⟨rfl, -, -⟩ := h
  have hone : Char.utf8Size '.' = 1 := rfl
  rw [Text.size_append, Text.size_cons, hone]
  omega

theorem exists_cut_of_mem_itemRefs (hp : p ∈ itemRefs t) (hrun : RunAt t run n)
    (hbegins : p.BeginsIn run n) : ∃ before path, CutsAtDot run before path ∧
      p = ⟨n + before.size, n + run.size, path⟩ := by
  obtain ⟨n', run', before, path, hrun', hcut, rfl⟩ := mem_itemRefs_iff.1 hp
  have hlt := hcut.size_lt
  have hinside : n' ≤ n' + before.size ∧ n' + before.size < n' + run'.size := by omega
  obtain ⟨rfl, rfl⟩ := hrun.eq_of_overlap hrun' hbegins hinside
  exact ⟨before, path, hcut, rfl⟩

theorem itemRefsOf_itemRefs (t : Text) : ItemRefsOf t (itemRefs t) := by
  refine ⟨inOrder_locate 0 _, ?_, ?_, ?_⟩
  · intro n run before path hrun hcut p
    constructor
    · rintro ⟨hp, hbegins⟩
      obtain ⟨before', path', hcut', rfl⟩ := exists_cut_of_mem_itemRefs hp hrun hbegins
      obtain ⟨rfl, rfl⟩ := hcut.unique hcut'
      rfl
    · rintro rfl
      have hlt := hcut.size_lt
      exact ⟨mem_itemRefs_iff.2 ⟨n, run, before, path, hrun, hcut, rfl⟩, Nat.le_add_right _ _,
        Nat.add_lt_add_left hlt n⟩
  · intro n run hrun hnone p hp hbegins
    obtain ⟨before, path, hcut, -⟩ := exists_cut_of_mem_itemRefs hp hrun hbegins
    exact hnone before path hcut
  · intro p hp
    obtain ⟨n, run, before, path, hrun, hcut, rfl⟩ := mem_itemRefs_iff.1 hp
    exact ⟨n, run, hrun, Nat.le_add_right _ _, Nat.add_lt_add_left hcut.size_lt n⟩

theorem ItemRefsOf.mem_iff (h : ItemRefsOf t refs) : p ∈ refs ↔ ∃ n run before path,
    RunAt t run n ∧ CutsAtDot run before path ∧ p = ⟨n + before.size, n + run.size, path⟩ := by
  constructor
  · intro hp
    obtain ⟨n, run, hrun, hbegins⟩ := h.exists_run p hp
    by_cases hcut : ∃ before path, CutsAtDot run before path
    · obtain ⟨before, path, hcut⟩ := hcut
      have heq := (h.dotted n run before path hrun hcut p).1 ⟨hp, hbegins⟩
      exact ⟨n, run, before, path, hrun, hcut, heq⟩
    · have hnone : ∀ before path, ¬ CutsAtDot run before path := fun before path hc ↦
        hcut ⟨before, path, hc⟩
      exact absurd hbegins (h.undotted n run hrun hnone p hp)
  · rintro ⟨n, run, before, path, hrun, hcut, hp⟩
    exact ((h.dotted n run before path hrun hcut p).2 hp).1

/-- The scan of a body finds one placeholder for each run of path characters in which something follows the
first dot, from this dot to the end of the run, and it finds no other ones. Nothing else can be said of the
placeholders of a body. -/
theorem itemRefsOf_iff (t : Text) (refs : List Placeholder) :
    ItemRefsOf t refs ↔ refs = itemRefs t := by
  constructor
  · intro h
    have hrefs := itemRefsOf_itemRefs t
    exact h.inOrder.eq_of_mem_iff hrefs.inOrder fun p ↦ h.mem_iff.trans hrefs.mem_iff.symm
  · rintro rfl
    exact itemRefsOf_itemRefs t

/-- Runs of dots, a run with digits before its dot, and two that end with their first dot. -/
example : itemRefs ['.', '.', '.', ' ', '3', '.', '1', '.', 'é', 'x', '.', ' ', '.'] =
    [⟨0, 3, ['.', '.']⟩, ⟨5, 8, ['1', '.']⟩] := by decide

end TildeMerge.Markup
