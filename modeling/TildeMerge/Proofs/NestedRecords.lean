import TildeMerge.Data.Record
import TildeMerge.Proofs.Composition
import TildeMerge.Proofs.Document.Filling
import TildeMerge.Proofs.Json.RoundTrip

namespace TildeMerge

open Markup

variable {e : Engine} {record v w : Value} {key t : Text}

/-- A record that a text can hold exactly, in which so few records and lists lie inside one another that
they are read back. -/
structure Value.Nestable (v : Value) : Prop where
  isRecord : v.isRecord = true
  exact : v.Exact
  depth_le : v.depth ≤ 127

namespace Value.Nestable

theorem inserted_eq_write (h : v.Nestable) : v.inserted = Json.write v := by
  have hrecord := h.isRecord
  cases v with
  | record fields => rfl
  | null | bool b | int n | real x | text t | list items => cases hrecord

theorem parse_inserted (h : v.Nestable) : Record.parse v.inserted = .ok v := by
  have hread : Json.read v.inserted = some v := by
    rw [h.inserted_eq_write]
    exact Json.read_write h.exact h.depth_le
  simp [Record.parse, Record.readValue, hread, h.isRecord]

theorem eq_of_inserted_eq (hv : v.Nestable) (hw : w.Nestable) (h : v.inserted = w.inserted) :
    v = w := by
  have hparse := hv.parse_inserted
  rw [h, hw.parse_inserted] at hparse
  exact (Except.ok.inj hparse).symm

end Value.Nestable

theorem scalarPass_placeholder (hkey : key.startsWord = true) (hrun : IsRun key)
    (h : record.lookup key = some v) :
    (e.scalarPass ('~' :: key) record).result = .ok v.inserted := by
  have hpieces : scalarPieces ('~' :: key) = [.placeholder key] := by
    have hplaceholder := scalarPieces_placeholder hkey hrun endsRun_nil
    rwa [List.append_nil] at hplaceholder
  have hsplice : (splice (resolveIn record e.options.missing) [.placeholder key]).result =
      .ok v.inserted := by
    rw [Document.splice_placeholder_result, insertedText, h]
  rw [Engine.scalarPass, Logged.bind_result, hpieces, hsplice]
  rfl

theorem render_placeholder (hkey : key.startsWord = true) (hrun : IsRun key)
    (h : record.lookup key = some v) (hblocks : blocks v.inserted = []) :
    (e.render ('~' :: key) record).result = .ok v.inserted :=
  render_eq_ok.2 ⟨v.inserted, scalarPass_placeholder hkey hrun h, blockPass_of_blocks_eq_nil hblocks⟩

/-- The text is what a placeholder becomes that stands alone, in some render in which it has this value. -/
def Renders (v : Value) (t : Text) : Prop :=
  ∃ (e : Engine) (key : Text) (record : Value), key.startsWord = true ∧ IsRun key ∧
    record.lookup key = some v ∧ (e.render ('~' :: key) record).result = .ok t

theorem Renders.eq_inserted (h : Renders v t) (hblocks : blocks v.inserted = []) : t = v.inserted := by
  obtain ⟨e, key, record, hkey, hrun, hlookup, hrender⟩ := h
  rw [render_placeholder hkey hrun hlookup hblocks] at hrender
  exact (Except.ok.inj hrender).symm

/-- The text of a record inside a record is read back as that record, so two records have two texts. The
render of a placeholder keeps this as long as the second pass finds no block in the text. -/
theorem nested_record_survives (hv : v.Nestable) (hw : w.Nestable) :
    Record.parse v.inserted = .ok v ∧ (v.inserted = w.inserted → v = w) ∧
      (blocks v.inserted = [] → ∀ (e : Engine) (key : Text) (record : Value),
        key.startsWord = true → IsRun key → record.lookup key = some v →
          (e.render ('~' :: key) record).result = .ok v.inserted ∧
            (e.render ('~' :: key) record).result >>= Record.parse = .ok v) ∧
      (blocks v.inserted = [] → blocks w.inserted = [] → ∀ t, Renders v t → Renders w t → v = w) := by
  refine ⟨hv.parse_inserted, hv.eq_of_inserted_eq hw, ?_, ?_⟩
  · intro hblocks e key record hkey hrun hlookup
    have hrender := render_placeholder (e := e) hkey hrun hlookup hblocks
    refine ⟨hrender, ?_⟩
    rw [hrender]
    exact hv.parse_inserted
  · intro hblocks hblocks' t ht ht'
    apply hv.eq_of_inserted_eq hw
    rw [← ht.eq_inserted hblocks, ← ht'.eq_inserted hblocks']

/-- A record with integers at both ends of their range, a control character, and an opener without a
closer. -/
def deepRecord : Value :=
  .record [("a".toList, .list [.bool true, .int (-9223372036854775808), .int 18446744073709551615,
      .record [("\x01\"".toList, .null), ("é".toList, .list [])]]),
    ("b".toList, .text "~.x".toList)]

def shallowRecord : Value :=
  .record [("b".toList, .text "~.x".toList)]

theorem deepRecord_nestable : deepRecord.Nestable where
  isRecord := rfl
  exact := by
    refine .record (by decide) ?_
    simp only [List.forall_mem_cons]
    refine ⟨.list ?_, .text _, by simp⟩
    simp only [List.forall_mem_cons]
    refine ⟨.bool _, .int (by decide), .int (by decide), .record (by decide) ?_, by simp⟩
    simp only [List.forall_mem_cons]
    exact ⟨.null, .list (by simp), by simp⟩
  depth_le := by decide

theorem shallowRecord_nestable : shallowRecord.Nestable where
  isRecord := rfl
  exact := by
    refine .record (by decide) ?_
    simp only [List.forall_mem_cons]
    exact ⟨.text _, by simp⟩
  depth_le := by decide

theorem nested_record_survives_deepRecord :
    deepRecord.Nestable ∧ shallowRecord.Nestable ∧
      deepRecord.inserted = "\x7b\"a\":[true,-9223372036854775808,18446744073709551615,".toList ++
        "\x7b\"\\u0001\\\"\":null,\"é\":[]\x7d],\"b\":\"~.x\"\x7d".toList ∧
      Record.parse deepRecord.inserted = .ok deepRecord ∧
      deepRecord.inserted ≠ shallowRecord.inserted ∧
      blocks deepRecord.inserted = [] ∧ blocks shallowRecord.inserted = [] ∧
      ((⟨.standard, { missing := .strict }⟩ : Engine).render ['~', 'k']
        (.record [(['k'], deepRecord)])).result = .ok deepRecord.inserted ∧
      ∀ t, Renders deepRecord t → ¬Renders shallowRecord t := by
  have hne : deepRecord ≠ shallowRecord := by simp [deepRecord, shallowRecord]
  have hblocks : blocks deepRecord.inserted = [] := by decide +kernel
  have hblocks' : blocks shallowRecord.inserted = [] := by decide +kernel
  obtain ⟨hparse, hinserted, hrender, hrenders⟩ :=
    nested_record_survives deepRecord_nestable shallowRecord_nestable
  refine ⟨deepRecord_nestable, shallowRecord_nestable, by decide +kernel, hparse,
    fun h ↦ hne (hinserted h), hblocks, hblocks', ?_, ?_⟩
  · exact (hrender hblocks _ ['k'] _ rfl (by decide) rfl).1
  · intro t ht ht'
    exact hne (hrenders hblocks hblocks' t ht ht')

def blockInside : Value :=
  .record [(['a'], .text "~.for .i~.end".toList)]

def blockReplaced : Value :=
  .record [(['a'], .text [])]

/-- A block in the text of a record is replaced like any other, and what is rendered is read back as
another record, which has the same render. -/
theorem nested_record_survives_blockInside :
    blockInside.Nestable ∧ blockReplaced.Nestable ∧ blockInside ≠ blockReplaced ∧
      (({} : Engine).render ['~', 'k'] (.record [(['i'], .list []), (['k'], blockInside)])).result =
        .ok "\x7b\"a\":\"\"\x7d".toList ∧
      (({} : Engine).render ['~', 'k'] (.record [(['i'], .list []), (['k'], blockReplaced)])).result =
        .ok "\x7b\"a\":\"\"\x7d".toList ∧
      Record.parse "\x7b\"a\":\"\"\x7d".toList = .ok blockReplaced ∧
      Record.parse "\x7b\"a\":\"\"\x7d".toList ≠ .ok blockInside := by
  have hinside : blockInside.Nestable := by
    refine ⟨rfl, .record (by decide) ?_, by decide⟩
    simpa using .text _
  have hreplaced : blockReplaced.Nestable := by
    refine ⟨rfl, .record (by decide) ?_, by decide⟩
    simpa using .text _
  have hne : blockInside ≠ blockReplaced := by simp [blockInside, blockReplaced]
  have hparse : Record.parse "\x7b\"a\":\"\"\x7d".toList = .ok blockReplaced :=
    hreplaced.parse_inserted
  refine ⟨hinside, hreplaced, hne, by decide +kernel, by decide +kernel, hparse, ?_⟩
  rw [hparse]
  intro h
  exact hne (Except.ok.inj h).symm

end TildeMerge
