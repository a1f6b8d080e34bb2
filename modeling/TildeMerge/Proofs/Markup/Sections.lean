import TildeMerge.Proofs.Markup.Pieces
import Mathlib.Data.List.Infix

namespace TildeMerge.Markup

variable {c : Char} {s t w g a : Text}

def opener : Text := ['~', '.']

def closing : Text := '~' :: closer

def toCloser : Text → Option (Text × Text)
  | [] => none
  | c :: t =>
    if closes c t then some (c :: closer, t.drop closer.length)
    else (toCloser t).map fun (g, a) ↦ (c :: g, a)

theorem isRun_closer : IsRun closer := by decide

theorem isPrefixOf_first (hw : IsRun w) (t : Text) :
    w.isPrefixOf (runs t).first = w.isPrefixOf t := by
  induction w generalizing t with
  | nil => simp
  | cons d w ih =>
    have hd : isPathChar d = true := hw d List.mem_cons_self
    have hw' : IsRun w := fun e he ↦ hw e (List.mem_cons_of_mem d he)
    cases t with
    | nil => rfl
    | cons c t =>
      cases hc : isPathChar c
      · have hne : (d == c) = false := by
          rw [beq_eq_false_iff_ne]
          rintro rfl
          rw [hd] at hc
          cases hc
        simp [runs_cons_break hc, List.isPrefixOf, hne]
      · simp [runs_cons_path hc, List.isPrefixOf, ih hw']

theorem closes_first (c : Char) (t : Text) : closes c (runs t).first = closes c t := by
  simp only [closes, isPrefixOf_first isRun_closer]

theorem opens_iff : opens c t = true ↔ opener <+: c :: t := by
  cases t with
  | nil => simp [opens, opener]
  | cons d t => simp [opens, opener, @eq_comm _ '~', @eq_comm _ '.']

theorem closes_iff : closes c t = true ↔ closing <+: c :: t := by
  simp [closes, closing, List.cons_prefix_cons, @eq_comm _ '~']

theorem opens_first (c : Char) (t : Text) : opens c (runs t).first = opens c t := by
  have hdot : IsRun ['.'] := by decide
  have h := isPrefixOf_first hdot t
  cases t with
  | nil => rfl
  | cons d t =>
    cases hd : isPathChar d
    · rw [runs_cons_break hd] at h ⊢
      have hne : d ≠ '.' := by
        rintro rfl
        cases hd
      simp [opens, hne]
    · rw [runs_cons_path hd]
      rfl

theorem runs_drop {n : Nat} (hn : n ≤ (runs t).first.length) :
    runs (t.drop n) = ⟨(runs t).first.drop n, (runs t).rest⟩ := by
  induction t generalizing n with
  | nil => simp [runs]
  | cons c t ih =>
    cases hc : isPathChar c
    · rw [runs_cons_break hc] at hn
      obtain rfl : n = 0 := Nat.le_zero.1 hn
      simp [runs_cons_break hc]
    · rw [runs_cons_path hc] at hn ⊢
      cases n with
      | zero => simp [runs_cons_path hc]
      | succ n => exact ih (Nat.le_of_succ_le_succ hn)

theorem sections_eq (t : Text) :
    sections t = (runs t).first.map .plain ++ (read (runs t).rest).outside := rfl

theorem sections_path (h : isPathChar c = true) (t : Text) :
    sections (c :: t) = .plain c :: sections t := by
  simp [sections_eq, runs_cons_path h]

theorem length_closer_le_of_closes (h : closes c t = true) :
    closer.length ≤ (runs t).first.length := by
  rw [← closes_first] at h
  have hp : closer <+: (runs t).first := by
    simpa using (Bool.and_eq_true_iff.1 h).2
  exact hp.length_le

/-- What the reading of a text says about an open block: it goes on to the first closer. -/
theorem inside_read (t : Text) :
    ((read (runs t).rest).inside.map fun (g, after) ↦ ((runs t).first ++ g, after)) =
      (toCloser t).map fun (g, a) ↦ (g, sections a) := by
  induction t with
  | nil => rfl
  | cons c t ih =>
    have hopt : (read (runs t).rest).inside.map
        (fun (g, after) ↦ (c :: (runs t).first ++ g, after)) =
        ((toCloser t).map fun (g, a) ↦ (g, sections a)).map fun (g, after) ↦ (c :: g, after) := by
      rw [← ih, Option.map_map]
      rfl
    cases hc : isPathChar c
    · rw [runs_cons_break hc]
      cases hcl : closes c t
      · simp only [read, toCloser, closes_first, hcl, hopt]
        simp [Option.map_map, Function.comp_def]
      · have hn := length_closer_le_of_closes hcl
        have hs : sections (t.drop closer.length) =
            ((runs t).first.drop closer.length).map .plain ++ (read (runs t).rest).outside := by
          rw [sections_eq, runs_drop hn]
        simp [read, toCloser, closes_first, hcl, hs]
    · have hne : c ≠ '~' := by
        rintro rfl
        cases hc
      have hcl : closes c t = false := by simp [closes, hne]
      simp only [runs_cons_path hc, toCloser, hcl, hopt]
      simp [Option.map_map, Function.comp_def]

theorem sections_plain (h : opens c t = false) : sections (c :: t) = .plain c :: sections t := by
  cases hc : isPathChar c
  · rw [sections_eq, runs_cons_break hc]
    simp only [read, opens_first, h]
    cases (read (runs t).rest).inside <;> simp [sections_eq]
  · exact sections_path hc t

theorem sections_unclosed (h : toCloser t = none) : sections (c :: t) = .plain c :: sections t := by
  have hin : (read (runs t).rest).inside = none := by
    have hr := inside_read t
    rw [h] at hr
    simpa using hr
  cases hc : isPathChar c
  · rw [sections_eq, runs_cons_break hc]
    simp [read, hin, sections_eq]
  · exact sections_path hc t

theorem sections_block (ho : opens c t = true) (h : toCloser t = some (g, a)) :
    sections (c :: t) = .block (c :: g) :: sections a := by
  have hc : isPathChar c = false := by
    have htilde : c = '~' := by simpa using (Bool.and_eq_true_iff.1 ho).1
    rw [htilde]
    exact isPathChar_tilde
  obtain ⟨⟨g', after⟩, hin, hg⟩ : ∃ p, (read (runs t).rest).inside = some p ∧
      ((runs t).first ++ p.1, p.2) = (g, sections a) := by
    have hr := inside_read t
    rw [h] at hr
    simpa using hr
  obtain ⟨rfl, rfl⟩ := Prod.mk.inj hg
  rw [sections_eq, runs_cons_break hc]
  simp [read, hin, opens_first, ho]

theorem toCloser_text (h : toCloser t = some (g, a)) : t = g ++ a := by
  induction t generalizing g with
  | nil => cases h
  | cons c t ih =>
    rw [toCloser] at h
    split at h
    · rename_i hcl
      obtain ⟨rfl, rfl⟩ := Prod.mk.inj (Option.some.inj h)
      have hp : closer <+: t := by simpa using (Bool.and_eq_true_iff.1 hcl).2
      exact congrArg (c :: ·) (List.prefix_iff_eq_append.1 hp).symm
    · obtain ⟨⟨g', a'⟩, ht, hg⟩ := Option.map_eq_some_iff.1 h
      obtain ⟨rfl, rfl⟩ := Prod.mk.inj hg
      rw [List.cons_append, ih ht]

theorem length_of_toCloser (h : toCloser t = some (g, a)) : a.length < (c :: t).length := by
  rw [toCloser_text h, List.length_cons, List.length_append]
  omega

/-- The cases of a text as its sections are read: a character outside every block, an opener without a
closer, or a whole block. -/
@[elab_as_elim]
theorem sections_induction {motive : Text → Prop} (nil : motive [])
    (plain : ∀ c t, opens c t = false → motive t → motive (c :: t))
    (unclosed : ∀ c t, opens c t = true → toCloser t = none → motive t → motive (c :: t))
    (block : ∀ c t g a, opens c t = true → toCloser t = some (g, a) → motive a → motive (c :: t))
    (t : Text) : motive t := by
  induction hn : t.length using Nat.strong_induction_on generalizing t with
  | _ n ih =>
    subst hn
    cases t with
    | nil => exact nil
    | cons c t =>
      have hrest := ih t.length (Nat.lt_succ_self _) t rfl
      cases ho : opens c t with
      | false => exact plain c t ho hrest
      | true =>
        cases hclose : toCloser t with
        | none => exact unclosed c t ho hclose hrest
        | some p =>
          obtain ⟨g, a⟩ := p
          exact block c t g a ho hclose (ih a.length (length_of_toCloser hclose) a rfl)

theorem sections_text (t : Text) : (sections t).flatMap Section.text = t := by
  induction t using sections_induction with
  | nil => rfl
  | plain c t ho ih =>
    rw [sections_plain ho, List.flatMap_cons, ih]
    rfl
  | unclosed c t ho hclose ih =>
    rw [sections_unclosed hclose, List.flatMap_cons, ih]
    rfl
  | block c t g a ho hclose ih =>
    rw [sections_block ho hclose, List.flatMap_cons, ih, toCloser_text hclose]
    rfl

theorem locateBlocks_append (n : Nat) (ss ts : List Section) : locateBlocks n (ss ++ ts) =
    locateBlocks n ss ++ locateBlocks (n + Text.size (ss.flatMap Section.text)) ts := by
  induction ss generalizing n with
  | nil => rfl
  | cons p ss ih =>
    cases p with
    | plain c =>
      rw [List.cons_append, locateBlocks, locateBlocks, ih, Nat.add_assoc]
      rfl
    | block region =>
      rw [List.cons_append, locateBlocks, locateBlocks, ih, List.flatMap_cons, Text.size_append,
        Nat.add_assoc]
      rfl

theorem exists_region_of_mem_locateBlocks {b : Block} {n : Nat} {ss : List Section}
    (h : b ∈ locateBlocks n ss) : ∃ start region, b = .ofRegion start region ∧ .block region ∈ ss := by
  induction ss generalizing n with
  | nil => cases h
  | cons sec ss ih =>
    cases sec with
    | plain c =>
      obtain ⟨start, region, hb, hmem⟩ := ih h
      exact ⟨start, region, hb, List.mem_cons_of_mem _ hmem⟩
    | block region =>
      rcases List.mem_cons.1 h with rfl | h
      · exact ⟨n, region, rfl, List.mem_cons_self⟩
      · obtain ⟨start, region', hb, hmem⟩ := ih h
        exact ⟨start, region', hb, List.mem_cons_of_mem _ hmem⟩

theorem exists_mem_locateBlocks {region : Text} {ss : List Section} (n : Nat)
    (h : .block region ∈ ss) : ∃ start, Block.ofRegion start region ∈ locateBlocks n ss := by
  induction ss generalizing n with
  | nil => cases h
  | cons sec ss ih =>
    cases sec with
    | plain c =>
      rw [List.mem_cons] at h
      have hmem : .block region ∈ ss := h.resolve_left nofun
      exact ih (n + c.utf8Size) hmem
    | block first =>
      rw [locateBlocks]
      rcases List.mem_cons.1 h with heq | hmem
      · obtain rfl := Section.block.inj heq
        exact ⟨n, List.mem_cons_self⟩
      · obtain ⟨start, hstart⟩ := ih (n + first.size) hmem
        exact ⟨start, List.mem_cons_of_mem _ hstart⟩

theorem toCloser_cons_of_ne (h : c ≠ '~') (t : Text) :
    toCloser (c :: t) = (toCloser t).map fun (g, a) ↦ (c :: g, a) := by
  simp [toCloser, closes, h]

theorem toCloser_append_closing (h : '~' ∉ s) (t : Text) :
    toCloser (s ++ closing ++ t) = some (s ++ closing, t) := by
  induction s with
  | nil => simp [toCloser, closing, closes, closer]
  | cons c s ih =>
    simp only [List.mem_cons, not_or] at h
    rw [List.cons_append, List.cons_append, toCloser_cons_of_ne (Ne.symm h.1), ih h.2]
    rfl

theorem sections_append_of_plain (h : '~' ∉ s) (t : Text) :
    sections (s ++ t) = s.map .plain ++ sections t := by
  induction s with
  | nil => rfl
  | cons c s ih =>
    simp only [List.mem_cons, not_or] at h
    have hc : opens c (s ++ t) = false := by simp [opens, Ne.symm h.1]
    rw [List.cons_append, sections_plain hc, ih h.2, List.map_cons, List.cons_append]

theorem sections_opener_append (h : '~' ∉ s) (t : Text) :
    sections (opener ++ s ++ closing ++ t) = .block (opener ++ s ++ closing) :: sections t := by
  have hs : '~' ∉ '.' :: s := by
    simp [h]
  exact sections_block rfl (toCloser_append_closing hs t)

end TildeMerge.Markup
