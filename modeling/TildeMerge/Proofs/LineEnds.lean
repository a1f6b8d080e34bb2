import TildeMerge.Proofs.Markup.LineEnds
import TildeMerge.Proofs.Repetition
import TildeMerge.Proofs.Strictness
import Mathlib.Algebra.Order.BigOperators.Group.List
import Mathlib.Algebra.Order.Ring.Nat

namespace TildeMerge

open Markup

variable {policy : GapPolicy} {record item : Value} {body t u x stop reply : Text} {b : Block}
variable {ps : List Piece} {items : List Value} {texts replies gaps : List Text} {terminator : Text}
variable {parts : List (Block × List Text)}

/-- The values that the record has for the placeholders hold no line feed. -/
def SingleLine (record : Value) (refs : List Placeholder) : Prop :=
  ∀ r ∈ refs, ∀ v, record.lookup r.path = some v → '\n' ∉ v.inserted

/-- The values that come into the blocks of a text hold no line feed. -/
def SingleLineItems (record : Value) (u : Text) : Prop :=
  ∀ b ∈ blocks u, ∀ head, b.head = some head → ∀ items, record.lookup head.path = some (.list items) →
    ∀ item ∈ items, SingleLine item (itemRefs b.body)

theorem splice_crlf {resolve : Text → Logged Text}
    (h : ∀ path ∈ ps.filterMap Piece.path?, ∀ s, (resolve path).result = .ok s → '\n' ∉ s) :
    splice resolve (ps.flatMap Piece.crlf) = Text.crlf <$> splice resolve ps := by
  induction ps with
  | nil => rfl
  | cons piece ps ih =>
    cases piece with
    | plain c =>
      rw [List.flatMap_cons, Piece.crlf, splice_plain_append, ih h, splice, Functor.map_map,
        Functor.map_map]
      congr 1
      funext s
      exact (Text.crlf_append [c] s).symm
    | placeholder path =>
      obtain ⟨hpath, hrest⟩ := List.forall_mem_cons.1 h
      have hcons : (Piece.placeholder path :: ps).flatMap Piece.crlf =
          .placeholder path :: ps.flatMap Piece.crlf := rfl
      rw [hcons, splice, splice, ih hrest, map_bind]
      refine Logged.bind_congr fun v hv ↦ ?_
      rw [Functor.map_map, Functor.map_map]
      congr 1
      funext s
      rw [Text.crlf_append, Text.crlf_of_notMem (hpath v hv)]

theorem newline_notMem_of_resolveIn {path s : Text}
    (h : ∀ v, record.lookup path = some v → '\n' ∉ v.inserted)
    (hs : (resolveIn record policy path).result = .ok s) : '\n' ∉ s := by
  unfold resolveIn at hs
  cases hv : record.lookup path with
  | some v =>
    rw [hv] at hs
    obtain rfl := Except.ok.inj hs
    exact h v hv
  | none =>
    rw [hv] at hs
    cases policy with
    | undefined =>
      obtain rfl := Except.ok.inj hs
      decide
    | empty =>
      obtain rfl := Except.ok.inj hs
      decide
    | strict => cases hs

theorem splice_resolveIn_crlf (h : SingleLine record (locate 0 ps)) (policy : GapPolicy) :
    splice (resolveIn record policy) (ps.flatMap Piece.crlf) =
      Text.crlf <$> splice (resolveIn record policy) ps := by
  apply splice_crlf
  rw [← map_path_locate 0, List.forall_mem_map]
  intro r hr s hs
  exact newline_notMem_of_resolveIn (h r hr) hs

theorem scalarPass_crlf (e : Engine) (h : SingleLine record (scalars t))
    (hu : (e.scalarPass t record).result = .ok u) :
    (e.scalarPass t.crlf record).result = .ok u.crlf := by
  rw [Engine.scalarPass, Logged.bind_result] at hu ⊢
  rw [scalarPieces_crlf, splice_resolveIn_crlf h]
  exact congrArg (Except.map Text.crlf) hu

/-- The texts that the body of a block gives for the items that it is repeated for. -/
inductive Markup.Block.Repeats (b : Block) (policy : GapPolicy) (record : Value) :
    List Text → Prop
  | missing {head : Head} (h : b.head = some head) (hfor : head.directive = Directives.forKeyword)
      (hnone : record.lookup head.path = none) (hlax : policy ≠ .strict) : Repeats b policy record []
  | items {head : Head} {items : List Value} {texts : List Text} (h : b.head = some head)
      (hfor : head.directive = Directives.forKeyword)
      (hlist : record.lookup head.path = some (.list items))
      (htexts : List.Forall₂ (Contributes b.body ⟨policy, []⟩) items texts) :
      Repeats b policy record texts

theorem contributes_iff_splice : Contributes body ⟨policy, []⟩ item x ↔
    (splice (resolveIn item policy) (itemPieces body)).result = .ok x := by
  rw [contributes_iff, itemSection_eq]
  simp

theorem contributes_terminator {options : Options} : Contributes body options item x ↔
    ∃ s, Contributes body ⟨options.missing, []⟩ item s ∧ x = s ++ options.terminator := by
  rw [contributes_iff, itemSection_eq, map_eq_ok]
  simp only [contributes_iff_splice, @eq_comm _ x]

theorem Contributes.crlf (h : Contributes body ⟨policy, []⟩ item x) (hitem : SingleLine item (itemRefs body))
    (hstop : stop = [] ∨ stop = ['\r']) :
    Contributes (body.crlf ++ stop) ⟨policy, []⟩ item (x.crlf ++ stop) := by
  have hends : EndsRun stop := by
    rcases hstop with rfl | rfl
    · exact endsRun_nil
    · decide
  have hplain : itemPieces stop = stop.map .plain := by
    rcases hstop with rfl | rfl
    · rfl
    · decide
  rw [contributes_iff_splice] at h ⊢
  rw [itemPieces_append _ hends, itemPieces_crlf, hplain, splice_append, splice_resolveIn_crlf hitem,
    splice_plain, Logged.bind_result]
  rw [Logged.map_result, h]
  rfl

theorem contributes_texts (replies : List Text) :
    List.Forall₂ (Contributes body ⟨policy, terminator⟩) items replies ↔
      ∃ texts, List.Forall₂ (Contributes body ⟨policy, []⟩) items texts ∧
        replies = texts.map (· ++ terminator) := by
  induction items generalizing replies with
  | nil =>
    simp only [List.forall₂_nil_left_iff]
    constructor
    · rintro rfl
      exact ⟨[], rfl, rfl⟩
    · rintro ⟨_, rfl, rfl⟩
      rfl
  | cons item items ih =>
    simp only [List.forall₂_cons_left_iff, ih]
    constructor
    · rintro ⟨_, _, hs, ⟨texts, htexts, rfl⟩, rfl⟩
      obtain ⟨s, hitem, rfl⟩ := contributes_terminator.1 hs
      exact ⟨s :: texts, ⟨s, texts, hitem, htexts, rfl⟩, rfl⟩
    · rintro ⟨_, ⟨s, texts, hs, htexts, rfl⟩, rfl⟩
      exact ⟨_, _, contributes_terminator.2 ⟨s, hs, rfl⟩, ⟨texts, htexts, rfl⟩, rfl⟩

theorem Markup.Block.Repeats.handOver (h : b.Repeats policy record texts) (terminator : Text) :
    ((standardEngine policy terminator).handOver record b).result =
      .ok (texts.flatMap (· ++ terminator)) := by
  cases h with
  | missing h hfor hnone hlax =>
    rw [handOver_of_head h, standardEngine, dispatch_standard, if_pos hfor, forEach_missing hnone]
    cases policy with
    | strict => exact absurd rfl hlax
    | _ => rfl
  | items h hfor hlist htexts =>
    rw [handOver_of_head h, standardEngine, dispatch_standard, if_pos hfor, forEach_eq_ok_iff hlist]
    exact ⟨_, (contributes_texts _).2 ⟨texts, htexts, rfl⟩, List.flatMap_def ..⟩

theorem exists_repeats
    (h : ((standardEngine policy terminator).handOver record b).result = .ok reply) :
    ∃ texts, b.Repeats policy record texts := by
  cases hhead : b.head with
  | none =>
    rw [Engine.handOver, hhead] at h
    cases h
  | some head =>
    rw [handOver_of_head hhead, standardEngine, dispatch_standard] at h
    by_cases hfor : head.directive = Directives.forKeyword
    · rw [if_pos hfor] at h
      cases hvalue : record.lookup head.path with
      | none =>
        refine ⟨[], .missing hhead hfor hvalue ?_⟩
        rintro rfl
        rw [forEach_missing hvalue] at h
        cases h
      | some v =>
        by_cases hv : ∃ items, v = .list items
        · obtain ⟨items, rfl⟩ := hv
          obtain ⟨replies, hreplies, -⟩ := (forEach_eq_ok_iff hvalue).1 h
          obtain ⟨texts, htexts, -⟩ := (contributes_texts replies).1 hreplies
          exact ⟨texts, .items hhead hfor hvalue htexts⟩
        · rw [forEach_of_no_list hvalue fun items hitems ↦ hv ⟨items, hitems⟩] at h
          cases h
    · rw [if_neg hfor] at h
      cases h

theorem forall₂_contributes_crlf (h : List.Forall₂ (Contributes body ⟨policy, []⟩) items texts)
    (hitems : ∀ item ∈ items, SingleLine item (itemRefs body)) (hstop : stop = [] ∨ stop = ['\r']) :
    List.Forall₂ (Contributes (body.crlf ++ stop) ⟨policy, []⟩) items (texts.map (·.crlf ++ stop)) := by
  rw [List.forall₂_map_right_iff]
  refine ((List.forall₂_and_left items texts).2 ⟨hitems, h⟩).imp ?_
  rintro item x ⟨hitem, hx⟩
  exact hx.crlf hitem hstop

theorem Markup.Block.Repeats.crlf (h : b.Repeats policy record texts) (hb : b ∈ blocks u)
    (hitems : SingleLineItems record u) :
    (Block.ofRegion 0 (b.region u).crlf).Repeats policy record
      (texts.map (·.crlf ++ strayReturn (b.region u))) := by
  have hregion := eq_ofRegion_of_mem_blocks hb
  have hheadLine : b.headLine = (b.region u).firstLine := congrArg Block.headLine hregion
  have hhead : (Block.ofRegion 0 (b.region u).crlf).head = b.head := by
    rw [Block.head, Block.head, hheadLine]
    exact parse_firstLine_crlf (b.region u)
  have hbody : (Block.ofRegion 0 (b.region u).crlf).body = b.body.crlf ++ strayReturn (b.region u) := by
    have hb : b.body = bodyOf (b.region u) := congrArg Block.body hregion
    rw [hb]
    exact bodyOf_crlf (b.region u)
  cases h with
  | missing h hfor hnone hlax => exact .missing (hhead.trans h) hfor hnone hlax
  | items h hfor hlist htexts =>
    refine .items (hhead.trans h) hfor hlist ?_
    rw [hbody]
    exact forall₂_contributes_crlf htexts (hitems b hb _ h _ hlist) (strayReturn_eq _)

theorem exists_parts {bs : List Block}
    (h : (bs.mapM fun b ↦ ((standardEngine policy terminator).handOver record b).result) =
      .ok replies) :
    ∃ parts : List (Block × List Text), parts.map Prod.fst = bs ∧
      (∀ p ∈ parts, p.1.Repeats policy record p.2) ∧
      replies = parts.map fun p ↦ p.2.flatMap (· ++ terminator) := by
  induction bs generalizing replies with
  | nil =>
    obtain rfl := Except.ok.inj h
    exact ⟨[], rfl, List.forall_mem_nil _, rfl⟩
  | cons b bs ih =>
    obtain ⟨reply, replies, hreply, hreplies, rfl⟩ := mapM_cons_eq_ok.1 h
    obtain ⟨texts, htexts⟩ := exists_repeats hreply
    obtain ⟨parts, rfl, hparts, rfl⟩ := ih hreplies
    obtain rfl := Except.ok.inj (hreply.symm.trans (htexts.handOver terminator))
    exact ⟨(b, texts) :: parts, rfl, List.forall_mem_cons.2 ⟨htexts, hparts⟩, rfl⟩

theorem mapM_handOver_crlf (e : Engine) (record : Value) (u : Text) :
    (blocks u.crlf).mapM (e.handOver record) =
      (blocks u).mapM fun b ↦ e.handOver record (.ofRegion 0 (b.region u).crlf) := by
  rw [mapM_handOver, map_region_crlf, List.mapM_map]
  rfl

/-- The gaps with the texts of the blocks between them, each of which ends as the block has it. -/
def assemble (gaps : List Text) (ending : Block → Text) (parts : List (Block × List Text)) : Text :=
  Text.alternate gaps (parts.map fun p ↦ p.2.flatMap (· ++ ending p.1))

theorem crlf_assemble (gaps : List Text) (parts : List (Block × List Text)) :
    Text.crlf (assemble gaps (fun _ ↦ ['\n']) parts) =
      assemble (gaps.map Text.crlf) (fun _ ↦ ['\r', '\n'])
        (parts.map fun p ↦ (p.1, p.2.map Text.crlf)) := by
  have htexts (texts : List Text) : Text.crlf (texts.flatMap (· ++ ['\n'])) =
      (texts.map Text.crlf).flatMap (· ++ ['\r', '\n']) := by
    induction texts with
    | nil => rfl
    | cons s texts ih =>
      rw [List.flatMap_cons, Text.crlf_append, Text.crlf_append, ih]
      rfl
  rw [assemble, Text.crlf_alternate, assemble, List.map_map, List.map_map]
  congr 2
  funext p
  exact htexts p.2

theorem assemble_eq_iff {short long : Block → Text} (h : ∀ p ∈ parts, short p.1 <:+ long p.1) :
    assemble gaps short parts = assemble gaps long parts ↔
      ∀ p ∈ parts, p.2 ≠ [] → short p.1 = long p.1 := by
  have hlength (texts : List Text) (s : Text) :
      (texts.flatMap (· ++ s)).length = texts.flatten.length + texts.length * s.length := by
    induction texts with
    | nil => simp
    | cons t texts ih =>
      rw [List.flatMap_cons, List.length_append, ih, List.flatten_cons, List.length_append,
        List.length_append, List.length_cons, Nat.succ_mul]
      omega
  constructor
  · intro heq p hp hne
    by_contra hdiff
    have hlt : (short p.1).length < (long p.1).length := by
      refine Nat.lt_of_le_of_ne (h p hp).length_le ?_
      intro hsame
      exact hdiff ((h p hp).eq_of_length hsame)
    have hsum : (parts.map fun p ↦ (p.2.flatMap (· ++ short p.1)).length).sum <
        (parts.map fun p ↦ (p.2.flatMap (· ++ long p.1)).length).sum := by
      refine List.sum_lt_sum _ _ ?_ ⟨p, hp, ?_⟩
      · intro q hq
        rw [hlength, hlength]
        exact Nat.add_le_add_left (Nat.mul_le_mul_left _ (h q hq).length_le) _
      · rw [hlength, hlength]
        exact Nat.add_lt_add_left (Nat.mul_lt_mul_of_pos_left hlt (List.length_pos_of_ne_nil hne)) _
    have hsame := congrArg List.length heq
    rw [assemble, assemble, Text.length_alternate, Text.length_alternate, Nat.add_left_cancel_iff,
      List.length_flatten, List.length_flatten, List.map_map, List.map_map] at hsame
    exact absurd hsame (Nat.ne_of_lt hsum)
  · intro hall
    rw [assemble, assemble]
    congr 1
    apply List.map_congr_left
    intro p hp
    by_cases hne : p.2 = []
    · rw [hne]
      rfl
    · rw [hall p hp hne]

/-- What a text is filled to when its blocks are repeated: the blocks, each with the texts of its items. -/
structure Fills (policy : GapPolicy) (record : Value) (u : Text) (parts : List (Block × List Text)) :
    Prop where
  blocks : parts.map Prod.fst = blocks u
  repeats : ∀ p ∈ parts, p.1.Repeats policy record p.2

def Markup.Block.HasLines (b : Block) (u : Text) : Prop :=
  2 ≤ (b.region u).count '\n'

theorem Fills.mapM_eq {f : Block → Except Error Text} {g : Block × List Text → Text}
    (hparts : Fills policy record u parts) (h : ∀ p ∈ parts, f p.1 = .ok (g p)) :
    (Markup.blocks u).mapM f = .ok (parts.map g) := by
  rw [← hparts.blocks, mapM_eq_ok, List.forall₂_map_left_iff, List.forall₂_map_right_iff,
    List.forall₂_same]
  exact h

theorem exists_fills (h : ((standardEngine policy terminator).blockPass u record).result = .ok x) :
    ∃ parts, Fills policy record u parts ∧
      x = assemble (u.gaps ((blocks u).map Block.span)) (fun _ ↦ terminator) parts := by
  rw [blockPass_result_eq] at h
  obtain ⟨replies, hreplies, rfl⟩ := map_eq_ok.1 h
  obtain ⟨parts, hblocks, hparts, rfl⟩ := exists_parts hreplies
  exact ⟨parts, ⟨hblocks, hparts⟩, rfl⟩

theorem Fills.blockPass_crlf (hparts : Fills policy record u parts) (hitems : SingleLineItems record u)
    (terminator : Text) :
    ((standardEngine policy terminator).blockPass u.crlf record).result =
      .ok (assemble ((u.gaps ((Markup.blocks u).map Block.span)).map Text.crlf)
        (fun b ↦ strayReturn (b.region u) ++ terminator)
        (parts.map fun p ↦ (p.1, p.2.map Text.crlf))) := by
  have hreply : ∀ p ∈ parts,
      ((standardEngine policy terminator).handOver record (.ofRegion 0 (p.1.region u).crlf)).result =
        .ok ((p.2.map Text.crlf).flatMap (· ++ (strayReturn (p.1.region u) ++ terminator))) := by
    intro p hp
    have hb : p.1 ∈ Markup.blocks u := by
      rw [← hparts.blocks]
      exact List.mem_map_of_mem hp
    rw [((hparts.repeats p hp).crlf hb hitems).handOver terminator, List.flatMap_map, List.flatMap_map]
    simp only [List.append_assoc]
  rw [blockPass_result_eq, ← mapM_result, mapM_handOver_crlf, mapM_result, hparts.mapM_eq hreply, gaps_crlf,
    assemble, List.map_map]
  rfl

/-- A template and the same one with carriage returns are filled with the same texts. Only behind a text of a
block that has lines the latter holds one carriage return too many, before the terminator. So the render of
the latter is that of the former with carriage returns if no block with lines is repeated; or, if the
terminator has none, if only such blocks are. -/
theorem render_crlf (hrecord : SingleLine record (scalars t))
    (hitems : ∀ u, ((standardEngine policy ['\n']).scalarPass t record).result = .ok u →
      SingleLineItems record u)
    (hx : ((standardEngine policy ['\n']).render t record).result = .ok x) :
    ∃ u parts, ((standardEngine policy ['\n']).scalarPass t record).result = .ok u ∧
      Fills policy record u parts ∧
      x = assemble (u.gaps ((blocks u).map Block.span)) (fun _ ↦ ['\n']) parts ∧
      (∀ terminator, ((standardEngine policy terminator).render t.crlf record).result =
        .ok (assemble ((u.gaps ((blocks u).map Block.span)).map Text.crlf)
          (fun b ↦ strayReturn (b.region u) ++ terminator)
          (parts.map fun p ↦ (p.1, p.2.map Text.crlf)))) ∧
      (((standardEngine policy ['\r', '\n']).render t.crlf record).result = .ok x.crlf ↔
        ∀ p ∈ parts, p.2 ≠ [] → ¬ p.1.HasLines u) ∧
      (((standardEngine policy ['\n']).render t.crlf record).result = .ok x.crlf ↔
        ∀ p ∈ parts, p.2 ≠ [] → p.1.HasLines u) := by
  obtain ⟨u, hu, hpass⟩ := render_eq_ok.1 hx
  obtain ⟨parts, hparts, rfl⟩ := exists_fills hpass
  have hrender (terminator : Text) :=
    (render_eq_ok (e := standardEngine policy terminator)).2 ⟨u.crlf,
      scalarPass_crlf (standardEngine policy terminator) hrecord hu,
      hparts.blockPass_crlf (hitems u hu) terminator⟩
  refine ⟨u, parts, hu, hparts, rfl, hrender, ?_, ?_⟩
  · rw [hrender, crlf_assemble, Except.ok.injEq, eq_comm,
      assemble_eq_iff fun p _ ↦ List.suffix_append _ _, List.forall_mem_map]
    simp only [ne_eq, List.map_eq_nil_iff, crlf_eq_append_strayReturn]
    rfl
  · rw [hrender, crlf_assemble, Except.ok.injEq, assemble_eq_iff fun p _ ↦ strayReturn_suffix _,
      List.forall_mem_map]
    simp only [ne_eq, List.map_eq_nil_iff, strayReturn_append_eq_crlf]
    rfl

def repeatedLine : Text :=
  opener ++ ['f', 'o', 'r', ' ', '.', 'i', '\n', '.', 'x', '\n'] ++ closing

def numberedPart : Value :=
  .record [(['x'], .text ['1'])]

def onePart : Value :=
  itemsOnly [numberedPart]

theorem render_crlf_repeatedLine :
    '\r' ∉ repeatedLine ∧ scalars repeatedLine = [] ∧
      (∀ path v, numberedPart.lookup path = some v → v.inserted = ['1']) ∧
      ((standardEngine .undefined ['\n']).render repeatedLine onePart).result = .ok ['1', '\n'] ∧
      ((standardEngine .undefined ['\r', '\n']).render repeatedLine.crlf onePart).result =
        .ok ['1', '\r', '\r', '\n'] ∧
      Text.crlf ['1', '\n'] = ['1', '\r', '\n'] := by
  refine ⟨by decide, by decide, ?_, by decide, by decide, rfl⟩
  intro path v hv
  by_cases hpath : path = ['x']
  · subst hpath
    obtain rfl := Option.some.inj hv
    rfl
  · have hnone : [(['x'], Value.text ['1'])].lookup path = none := by
      rw [List.lookup_cons, beq_false_of_ne hpath]
      rfl
    rw [numberedPart, Value.lookup.eq_1, hnone] at hv
    cases hv

def bareBlock : Text :=
  ['~', 'a', '\n'] ++ opener ++ ['f', 'o', 'r', '.', 'i', '\n'] ++ closing ++ ['\n'] ++ opener ++
    ['f', 'o', 'r', '.', 'j', '\n', '.', 'x', '\n'] ++ closing

theorem render_crlf_bareBlock :
    SingleLine onePart (scalars bareBlock) ∧
      (∀ u, ((standardEngine .undefined ['\n']).scalarPass bareBlock onePart).result = .ok u →
        SingleLineItems onePart u) ∧
      ((standardEngine .undefined ['\n']).render bareBlock onePart).result =
        .ok (undefinedText ++ ['\n', '\n', '\n']) ∧
      ((standardEngine .undefined ['\r', '\n']).render bareBlock.crlf onePart).result =
        .ok (undefinedText ++ ['\r', '\n', '\r', '\n', '\r', '\n']) := by
  have hrefs : scalars bareBlock = [⟨0, 2, ['a']⟩] := by decide
  have hrecord : SingleLine onePart (scalars bareBlock) := by
    rw [hrefs]
    intro r hr v hv
    obtain rfl := List.mem_singleton.1 hr
    cases hv
  have hfilled : ((standardEngine .undefined ['\n']).scalarPass bareBlock onePart).result =
      .ok (undefinedText ++ bareBlock.drop 2) := by
    decide
  have hblocks : blocks (undefinedText ++ bareBlock.drop 2) =
      [⟨10, 23, ['~', '.', 'f', 'o', 'r', '.', 'i'], []⟩,
        ⟨24, 40, ['~', '.', 'f', 'o', 'r', '.', 'j'], ['.', 'x']⟩] := by
    decide
  have hmissing : onePart.lookup ['j'] = none := by decide
  have hitems : ∀ u, ((standardEngine .undefined ['\n']).scalarPass bareBlock onePart).result = .ok u →
      SingleLineItems onePart u := by
    intro u hu b hb head hhead items hlist item hitem r hr
    obtain rfl := Except.ok.inj (hu.symm.trans hfilled)
    rw [hblocks, List.mem_cons, List.mem_singleton] at hb
    rcases hb with rfl | rfl
    · have hnone : itemRefs [] = [] := by decide
      rw [hnone] at hr
      cases hr
    · obtain rfl := Option.some.inj hhead
      cases hmissing.symm.trans hlist
  have hx : ((standardEngine .undefined ['\n']).render bareBlock onePart).result =
      .ok (undefinedText ++ ['\n', '\n', '\n']) := by
    decide
  refine ⟨hrecord, hitems, hx, ?_⟩
  obtain ⟨u, parts, hu, hparts, -, -, hiff, -⟩ := render_crlf hrecord hitems hx
  obtain rfl := Except.ok.inj (hu.symm.trans hfilled)
  refine hiff.2 ?_
  intro p hp hne
  have hb : p.1 ∈ blocks (undefinedText ++ bareBlock.drop 2) := by
    rw [← hparts.blocks]
    exact List.mem_map_of_mem hp
  have hrepeats := hparts.repeats p hp
  obtain ⟨b, texts⟩ := p
  rw [hblocks, List.mem_cons, List.mem_singleton] at hb
  rcases hb with rfl | rfl
  · have hbare : ¬ 2 ≤ (Text.slice (undefinedText ++ bareBlock.drop 2) 10 23).count '\n' := by decide
    exact hbare
  · cases hrepeats with
    | missing h => exact absurd rfl hne
    | items h hfor hlist htexts =>
      obtain rfl := Option.some.inj h
      cases hmissing.symm.trans hlist

end TildeMerge
