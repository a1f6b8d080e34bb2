import TildeMerge.Proofs.Markup.Leftovers
import TildeMerge.Proofs.Text.Offsets

namespace TildeMerge.Markup

open Text (BeginsAt FirstAt)

variable {c : Char} {s t g a m w : Text} {i n p q k : Nat} {spans : List (Nat × Nat)}

def Block.span (b : Block) : Nat × Nat :=
  (b.start, b.stop)

theorem span_ofRegion (start : Nat) (region : Text) :
    (Block.ofRegion start region).span = (start, start + region.size) := rfl

/-- The regions that a search from the offset `p` finds: from the first opener, to the end of the first
closer that begins behind its two bytes, and on from there until there is no such pair. -/
inductive RegionsFrom (t : Text) : Nat → List (Nat × Nat) → Prop
  | done {p : Nat} (h : ∀ start close, FirstAt opener t p start →
      ¬ FirstAt closing t (start + 2) close) : RegionsFrom t p []
  | next {p start close : Nat} {spans : List (Nat × Nat)} (hopen : FirstAt opener t p start)
      (hclose : FirstAt closing t (start + 2) close) (hrest : RegionsFrom t (close + 5) spans) :
      RegionsFrom t p ((start, close + 5) :: spans)

theorem size_opener : opener.size = 2 := by decide

theorem size_closing : closing.size = 5 := by decide

theorem opener_prefix_closing : opener <+: closing := by decide

theorem not_beginsAt_of_toCloser (h : toCloser t = none) : ¬ BeginsAt closing t n := by
  rintro ⟨s, hs, -⟩
  induction t generalizing s with
  | nil => simp [closing] at hs
  | cons c t ih =>
    rw [toCloser] at h
    split at h
    · cases h
    · rename_i hclose
      cases s with
      | nil => exact hclose (closes_iff.2 hs)
      | cons d s =>
        rw [List.cons_append, List.cons_prefix_cons] at hs
        exact ih (Option.map_eq_none_iff.1 h) s hs.2

theorem exists_closing (h : toCloser t = some (g, a)) :
    ∃ m, g = m ++ closing ∧ ∀ n, BeginsAt closing t n → m.size ≤ n := by
  induction t generalizing g with
  | nil => cases h
  | cons c t ih =>
    rw [toCloser] at h
    split at h
    · rename_i hclose
      obtain ⟨rfl, -⟩ := Prod.mk.inj (Option.some.inj h)
      have htilde : c = '~' := by simpa using (Bool.and_eq_true_iff.1 hclose).1
      exact ⟨[], by rw [htilde]; rfl, fun n _ ↦ Nat.zero_le n⟩
    · rename_i hclose
      obtain ⟨⟨g', a'⟩, ht, hg⟩ := Option.map_eq_some_iff.1 h
      obtain ⟨rfl, rfl⟩ := Prod.mk.inj hg
      obtain ⟨m, rfl, hfirst⟩ := ih ht
      refine ⟨c :: m, rfl, fun n hn ↦ ?_⟩
      rcases Text.beginsAt_cons.1 hn with ⟨-, hstart⟩ | ⟨k, rfl, hk⟩
      · exact absurd (closes_iff.2 hstart) hclose
      · rw [Text.size_cons]
        exact Nat.add_le_add_left (hfirst k hk) _

theorem RegionsFrom.of_le (h : RegionsFrom t q spans) (hpq : p ≤ q)
    (hno : ∀ n, p ≤ n → BeginsAt opener t n → q ≤ n) : RegionsFrom t p spans := by
  have hfirst {start : Nat} : FirstAt opener t p start ↔ FirstAt opener t q start := by
    have hset : {k | p ≤ k ∧ BeginsAt opener t k} = {k | q ≤ k ∧ BeginsAt opener t k} := by
      ext k
      exact ⟨fun ⟨hk, ho⟩ ↦ ⟨hno k hk ho, ho⟩, fun ⟨hk, ho⟩ ↦ ⟨hpq.trans hk, ho⟩⟩
    rw [FirstAt, FirstAt, hset]
  cases h with
  | done h => exact .done fun start close hopen ↦ h start close (hfirst.1 hopen)
  | next hopen hclose hrest => exact .next (hfirst.2 hopen) hclose hrest

theorem RegionsFrom.unique {spans' : List (Nat × Nat)} (h : RegionsFrom t p spans)
    (h' : RegionsFrom t p spans') : spans = spans' := by
  induction h generalizing spans' with
  | done h =>
    cases h' with
    | done => rfl
    | next hopen hclose hrest => exact absurd hclose (h _ _ hopen)
  | next hopen hclose hrest ih =>
    cases h' with
    | done h => exact absurd hclose (h _ _ hopen)
    | next hopen' hclose' hrest' =>
      obtain rfl := hopen.unique hopen'
      obtain rfl := hclose.unique hclose'
      rw [ih hrest']

theorem regionsFrom_nil (h : toCloser t = none) (hp : s.size ≤ p + 2) :
    RegionsFrom (s ++ t) p [] := by
  refine .done fun start close hopen hclose ↦ ?_
  have hle : s.size ≤ close := by
    have hstart := hopen.1.1
    have hbehind := hclose.1.1
    omega
  obtain ⟨k, rfl⟩ := Nat.exists_eq_add_of_le hle
  exact not_beginsAt_of_toCloser h (Text.beginsAt_append.1 hclose.1.2)

theorem regionsFrom_block (ho : opens c t = true) (h : toCloser t = some (g, a))
    (hrest : RegionsFrom (s ++ c :: t) (s.size + Text.size (c :: g)) spans) :
    RegionsFrom (s ++ c :: t) s.size ((s.size, s.size + Text.size (c :: g)) :: spans) := by
  obtain ⟨m, rfl, hfirst⟩ := exists_closing h
  obtain rfl : c = '~' := by simpa using (Bool.and_eq_true_iff.1 ho).1
  have htext : t = m ++ (closing ++ a) := by rw [toCloser_text h, List.append_assoc]
  have hm : 1 ≤ m.size := by
    -- The character behind the tilde is a dot, where no closer begins.
    cases m with
    | nil =>
      rw [htext] at ho
      cases ho
    | cons d m =>
      have hd := d.utf8Size_pos
      rw [Text.size_cons]
      omega
  have hstop : s.size + Text.size ('~' :: (m ++ closing)) = s.size + (1 + m.size) + 5 := by
    have htilde : Char.utf8Size '~' = 1 := rfl
    rw [Text.size_cons, Text.size_append, size_closing, htilde]
    omega
  have hwhole : s ++ '~' :: t = s ++ ['~'] ++ t := by rw [List.append_assoc]; rfl
  have hbehind : (s ++ ['~']).size = s.size + 1 := by
    rw [Text.size_append]
    rfl
  rw [hstop] at hrest ⊢
  refine .next ⟨⟨le_rfl, ?_⟩, fun n hn ↦ hn.1⟩ ⟨⟨by omega, ?_⟩, fun n hn ↦ ?_⟩ hrest
  · exact Text.beginsAt_size.2 (opens_iff.1 ho)
  · rw [hwhole, ← Nat.add_assoc, ← hbehind, Text.beginsAt_append, htext, Text.beginsAt_size]
    exact List.prefix_append _ _
  · obtain ⟨hle, hbegins⟩ := hn
    obtain ⟨k, rfl⟩ := Nat.exists_eq_add_of_le (show (s ++ ['~']).size ≤ n by omega)
    rw [hwhole, Text.beginsAt_append] at hbegins
    have hk := hfirst k hbegins
    omega

theorem regionsFrom_locateBlocks (s t : Text) :
    RegionsFrom (s ++ t) s.size ((locateBlocks s.size (sections t)).map Block.span) := by
  have hwhole (c : Char) (s t : Text) : s ++ c :: t = s ++ [c] ++ t := by
    rw [List.append_assoc]
    rfl
  have hsize (c : Char) (s : Text) : (s ++ [c]).size = s.size + c.utf8Size := by
    rw [Text.size_append]
    rfl
  induction t using sections_induction generalizing s with
  | nil => exact regionsFrom_nil rfl (by omega)
  | plain c t ho ih =>
    have hrest := ih (s ++ [c])
    rw [← hwhole] at hrest
    rw [sections_plain ho, locateBlocks, ← hsize]
    refine hrest.of_le (by rw [hsize]; omega) fun n hle hbegins ↦ ?_
    obtain ⟨k, rfl⟩ := Nat.exists_eq_add_of_le hle
    rcases Text.beginsAt_cons.1 (Text.beginsAt_append.1 hbegins) with ⟨-, hstart⟩ | ⟨j, rfl, -⟩
    · rw [opens_iff.2 hstart] at ho
      cases ho
    · rw [hsize]
      omega
  | unclosed c t ho hclose ih =>
    rw [sections_unclosed hclose, sections_of_toCloser_eq_none hclose, locateBlocks,
      locateBlocks_plain, hwhole]
    obtain rfl : c = '~' := by simpa using (Bool.and_eq_true_iff.1 ho).1
    refine regionsFrom_nil hclose ?_
    rw [hsize]
    exact Nat.add_le_add_left (by decide) _
  | block c t g a ho hclose ih =>
    have hrest := ih (s ++ c :: g)
    have htext : s ++ c :: g ++ a = s ++ c :: t := by
      rw [toCloser_text hclose, List.append_assoc, List.cons_append]
    rw [htext, Text.size_append] at hrest
    rw [sections_block ho hclose, locateBlocks]
    exact regionsFrom_block ho hclose hrest

/-- The spans of the blocks are what the search finds, and nothing else is. -/
theorem regionsFrom_iff : RegionsFrom t 0 spans ↔ spans = (blocks t).map Block.span := by
  have hblocks : RegionsFrom t 0 ((blocks t).map Block.span) := regionsFrom_locateBlocks [] t
  constructor
  · intro h
    exact h.unique hblocks
  · rintro rfl
    exact hblocks

theorem not_beginsAt_within (hm : IsRun m.tail) (h : BeginsAt m t i)
    (h' : BeginsAt ('~' :: w) t (i + k)) (hk : 0 < k) : m.size ≤ k := by
  by_contra hlt
  obtain ⟨s, ⟨r, rfl⟩, rfl⟩ := h
  rw [List.append_assoc, Text.beginsAt_append] at h'
  obtain ⟨q, hq, rfl⟩ := h'
  obtain ⟨d, rfl⟩ : q <+: m :=
    Text.prefix_of_size_le ((List.prefix_append q _).trans hq) (List.prefix_append m r) (by omega)
  rw [List.append_assoc, List.prefix_append_right_inj] at hq
  cases q with
  | nil => exact absurd hk (Nat.lt_irrefl 0)
  | cons f q =>
    cases d with
    | nil => simp at hlt
    | cons e d =>
      obtain rfl : '~' = e := (List.cons_prefix_cons.1 hq).1
      exact hm.tilde_notMem (List.mem_append_right q List.mem_cons_self)

theorem RegionsFrom.le_start (h : RegionsFrom t p spans) : ∀ x ∈ spans, p ≤ x.1 := by
  induction h with
  | done h => exact List.forall_mem_nil _
  | next hopen hclose hrest ih =>
    have hstart := hopen.1.1
    have hbehind := hclose.1.1
    refine List.forall_mem_cons.2 ⟨hstart, fun x hx ↦ ?_⟩
    have hle := ih x hx
    omega

theorem RegionsFrom.pairwise (h : RegionsFrom t p spans) :
    spans.Pairwise fun x y ↦ x.2 ≤ y.1 := by
  induction h with
  | done h => exact .nil
  | next hopen hclose hrest ih => exact .cons hrest.le_start ih

theorem RegionsFrom.exists_close (h : RegionsFrom t p spans) {x : Nat × Nat} (hx : x ∈ spans) :
    ∃ close, x.2 = close + 5 ∧ FirstAt closing t (x.1 + 2) close ∧ BeginsAt opener t x.1 := by
  induction h with
  | done h => cases hx
  | @next p start close spans hopen hclose hrest ih =>
    rcases List.mem_cons.1 hx with rfl | hx
    · exact ⟨close, rfl, hclose, hopen.1.2⟩
    · exact ih hx

theorem RegionsFrom.opener_cases (h : RegionsFrom t p spans) (hn : BeginsAt opener t n)
    (hp : p ≤ n) : (∃ x ∈ spans, x.1 ≤ n ∧ n < x.2) ∨
      (∀ x ∈ spans, x.2 ≤ n) ∧ ∀ k, n + 2 ≤ k → ¬ BeginsAt closing t k := by
  induction h with
  | @done p h =>
    refine .inr ⟨List.forall_mem_nil _, fun k hk hclose ↦ ?_⟩
    obtain ⟨start, hstart⟩ := Text.exists_firstAt hn hp
    have hle := hstart.2 ⟨hp, hn⟩
    obtain ⟨close, hfirst⟩ := Text.exists_firstAt hclose (p := start + 2) (by omega)
    exact h start close hstart hfirst
  | @next p start close spans hopen hclose hrest ih =>
    by_cases hin : n < close + 5
    · exact .inl ⟨_, List.mem_cons_self, hopen.2 ⟨hp, hn⟩, hin⟩
    · rcases ih (Nat.le_of_not_lt hin) with ⟨x, hx, hlies⟩ | ⟨hbehind, hnone⟩
      · exact .inl ⟨x, List.mem_cons_of_mem _ hx, hlies⟩
      · exact .inr ⟨List.forall_mem_cons.2 ⟨Nat.le_of_not_lt hin, hbehind⟩, hnone⟩

theorem RegionsFrom.not_infix_gap (h : RegionsFrom t p spans) (hs : s <+: t) (hp : s.size = p) :
    ∀ g ∈ (t.gapsFrom p spans).dropLast, ¬ opener <:+: g := by
  induction h generalizing s with
  | done h => exact List.forall_mem_nil _
  | @next p start close spans hopen hclose hrest ih =>
    obtain ⟨⟨hle, u, ⟨r, rfl⟩, rfl⟩, hfirst⟩ := hopen
    obtain ⟨g, rfl⟩ : s <+: u := by
      refine Text.prefix_of_size_le hs ?_ (by omega)
      rw [List.append_assoc]
      exact List.prefix_append u _
    subst hp
    have hgap : Text.slice (s ++ g ++ opener ++ r) s.size (s ++ g).size = g := by
      rw [List.append_assoc, List.append_assoc, Text.size_append, Text.slice_append]
    rw [Text.gapsFrom, hgap, List.dropLast_cons_of_ne_nil (Text.gapsFrom_ne_nil _ _ _)]
    refine List.forall_mem_cons.2 ⟨?_, ?_⟩
    · rintro ⟨x, y, rfl⟩
      have hbegins : BeginsAt opener (s ++ (x ++ opener ++ y) ++ opener ++ r) (s ++ x).size := by
        refine ⟨s ++ x, ?_, rfl⟩
        simp only [List.append_assoc]
        simp
      have hleast := hfirst ⟨by rw [Text.size_append]; omega, hbegins⟩
      simp only [Text.size_append, size_opener] at hleast
      omega
    · obtain ⟨⟨-, v, hv, rfl⟩, -⟩ := hclose
      exact ih hv (by rw [Text.size_append, size_closing])

/-- How the blocks of a text lie in it. -/
structure LeftmostShortest (t : Text) (bs : List Block) : Prop where
  regions : ∀ spans, RegionsFrom t 0 spans ↔ spans = bs.map Block.span
  ordered : bs.Pairwise fun a b ↦ a.stop ≤ b.start
  within : ∀ b ∈ bs, b.start + 7 ≤ b.stop ∧ b.stop ≤ t.size
  /-- No opener stands before the first block or between two blocks. -/
  not_infix_gap : ∀ g ∈ (t.gaps (bs.map Block.span)).dropLast, ¬ opener <:+: g
  /-- Behind the opener of a block its own closer is the only one. -/
  closed_once : ∀ b ∈ bs, ∀ n, b.start + 2 ≤ n → n < b.stop → (BeginsAt closing t n ↔ n + 5 = b.stop)
  unclosed_behind : ∀ n k, (∀ b ∈ bs, b.stop ≤ n) → BeginsAt opener t n → n + 2 ≤ k →
    ¬ BeginsAt closing t k
  /-- A closer that closes no block opens one if another closer follows. -/
  stray_opens : ∀ n k, BeginsAt closing t n → (∀ b ∈ bs, b.stop ≠ n + 5) → n + 2 ≤ k →
    BeginsAt closing t k → ∃ b ∈ bs, b.start = n

theorem closed_once_of_first {close : Nat} (h : FirstAt closing t (i + 2) close)
    (hn : i + 2 ≤ n) (hlt : n < close + 5) : BeginsAt closing t n ↔ n = close := by
  constructor
  · intro hclose
    have hle : close ≤ n := h.2 ⟨hn, hclose⟩
    obtain ⟨k, rfl⟩ := Nat.exists_eq_add_of_le hle
    by_contra hne
    have hfar := not_beginsAt_within isRun_tail_closing h.1.2 hclose (by omega)
    rw [size_closing] at hfar
    omega
  · rintro rfl
    exact h.1.2

/-- The blocks of a text are its leftmost shortest regions. -/
theorem blocks_leftmostShortest (t : Text) : LeftmostShortest t (blocks t) := by
  have h : RegionsFrom t 0 ((blocks t).map Block.span) := regionsFrom_iff.2 rfl
  have hclose (b : Block) (hb : b ∈ blocks t) : ∃ close, b.stop = close + 5 ∧
      FirstAt closing t (b.start + 2) close ∧ BeginsAt opener t b.start :=
    h.exists_close (List.mem_map_of_mem hb)
  have honce : ∀ b ∈ blocks t, ∀ n, b.start + 2 ≤ n → n < b.stop →
      (BeginsAt closing t n ↔ n + 5 = b.stop) := by
    intro b hb n hn hlt
    obtain ⟨close, hstop, hfirst, -⟩ := hclose b hb
    rw [hstop] at hlt ⊢
    rw [closed_once_of_first hfirst hn hlt]
    omega
  refine ⟨fun spans ↦ regionsFrom_iff, ?_, ?_, ?_, honce, ?_, ?_⟩
  · exact List.pairwise_map.1 h.pairwise
  · intro b hb
    obtain ⟨close, hstop, hfirst, -⟩ := hclose b hb
    have hbehind := hfirst.1.1
    have hsize := hfirst.1.2.size_le
    rw [size_closing] at hsize
    omega
  · exact h.not_infix_gap List.nil_prefix rfl
  · intro n k hbehind hopen hk
    rcases h.opener_cases hopen (Nat.zero_le n) with ⟨x, hx, hlies⟩ | ⟨-, hnone⟩
    · obtain ⟨b, hb, rfl⟩ := List.mem_map.1 hx
      exact absurd hlies.2 (Nat.not_lt.2 (hbehind b hb))
    · exact hnone k hk
  · intro n k hn hstray hk hlater
    have hopen := hn.of_prefix opener_prefix_closing
    rcases h.opener_cases hopen (Nat.zero_le n) with ⟨x, hx, hle, hlt⟩ | ⟨-, hnone⟩
    · obtain ⟨b, hb, rfl⟩ := List.mem_map.1 hx
      obtain ⟨-, -, -, hstart⟩ := hclose b hb
      obtain ⟨j, rfl⟩ := Nat.exists_eq_add_of_le hle
      rcases Nat.eq_zero_or_pos j with rfl | hj
      · exact ⟨b, hb, rfl⟩
      · have hfar : 2 ≤ j := not_beginsAt_within isRun_tail_opener hstart hn hj
        have hown := (honce b hb _ (Nat.add_le_add_left hfar _) hlt).1 hn
        exact absurd hown.symm (hstray b hb)
    · exact absurd hlater (hnone k hk)

/-- A closer that stands alone opens a block, and an opener without a closer does not hide it. -/
example : (blocks ['~', '.', 'e', 'n', 'd', '~', '.', 'e', 'n', 'd', '~', '.']).map Block.span =
    [(0, 10)] := by decide

end TildeMerge.Markup
