import FaultForge.Lib.Delimited
import FaultForge.Report

/-!
# The CSV Report

`to_csv` writes one line for each row of a result, its six fields separated by commas. In
the terms of `FaultForge.Lib.Delimited` the report is a header and a delimited table
(`toList_toCsv`). Numbers are written in decimal and flags as words, so of all fields only
the label could bring a separator with it; the labels of the scorer do not
(`Row.Labelled.notMem`). So the table is found again in the text, and the rows in the table.

## Main results

* `labelled_score`: the scorer's rows have such labels.
* `tableOf_toCsv`: the fields of the rows are read back from the report.
* `toCsv_lossless`: reports with the same text have the same rows.
-/

namespace FaultForge

open Delimited

/-! ### Writing the report -/

/-- The line of a row. -/
def Row.csvLine (r : Row) : String :=
  s!"{r.faultId},{r.kind},{r.atSeq},{r.detected},{r.label},{r.latencyMs}\n"

/-- The first line: the names of the columns. -/
def csvHeader : String :=
  "fault_id,fault_kind,at_seq,detected,detection,latency_ms\n"

/-- The report as text, one line for each row. -/
def toCsv (res : CampaignResult) : String :=
  res.rows.foldl (fun s r => s ++ r.csvLine) csvHeader

/-! ### The fields -/

/-- The fields of a row as text. -/
def Row.fields (r : Row) : List (List Char) :=
  [(toString r.faultId).toList, (toString r.kind).toList, (toString r.atSeq).toList,
    (toString r.detected).toList, r.label.toList, (toString r.latencyMs).toList]

/-- The row has a label that the scorer gives: the name of a detection, or the reason why
there is none. -/
def Row.Labelled (r : Row) : Prop :=
  r.label = "physical" ∨ r.label = "__miss__" ∨ ∃ k : DetKind, r.label = k.asStr

/-- A line is its fields with commas between them, and ends with a newline. -/
theorem toList_csvLine (r : Row) :
    r.csvLine.toList = [','].intercalate r.fields ++ ['\n'] := by
  have hcomma : (toString ",").toList = [','] := rfl
  have hnewline : (toString "\n").toList = ['\n'] := rfl
  have hlabel : toString r.label = r.label := rfl
  simp [Row.csvLine, Row.fields, List.intercalate, hcomma, hnewline, hlabel]

example : Row.csvLine ⟨1, 3, 10, true, "gap", 1⟩ = "1,3,10,true,gap,1\n" := rfl

/-- The report is a header and a delimited table. -/
theorem toList_toCsv (res : CampaignResult) :
    (toCsv res).toList =
      csvHeader.toList ++ writeTable ',' '\n' (res.rows.map Row.fields) := by
  rw [toCsv]
  generalize csvHeader = s
  induction res.rows generalizing s with
  | nil => simp [writeTable, terminated]
  | cons r rows ih =>
      rw [List.foldl_cons, ih, String.toList_append, toList_csvLine]
      simp [writeTable, terminated]

/-- Numbers are written in decimal. -/
theorem toList_toString (n : ℕ) : (toString n).toList = Nat.toDigits 10 n :=
  Nat.toList_repr

/-- A decimal number has no separators in it. -/
theorem notMem_toString {x : Char} (hx : x.isDigit = false) (n : ℕ) :
    x ∉ (toString n).toList := by
  rw [toList_toString]
  intro hmem
  have hdigit := Nat.isDigit_of_mem_toDigits (by decide) (by decide) hmem
  rw [hx] at hdigit
  exact Bool.false_ne_true hdigit

/-- Decimal numbers are told apart by their digits. -/
theorem toString_inj {m n : ℕ} (h : (toString m).toList = (toString n).toList) : m = n := by
  rw [toList_toString, toList_toString] at h
  calc m = Nat.ofDigitChars 10 (Nat.toDigits 10 m) 0 := Nat.ofDigitChars_ten_toDigits.symm
    _ = Nat.ofDigitChars 10 (Nat.toDigits 10 n) 0 := by rw [h]
    _ = n := Nat.ofDigitChars_ten_toDigits

/-- The two flags are written differently. -/
theorem flag_inj {b b' : Bool} (h : (toString b).toList = (toString b').toList) : b = b' := by
  revert h
  cases b <;> cases b' <;> decide

/-- The scorer's labels are plain words. -/
theorem Row.Labelled.notMem {r : Row} (h : r.Labelled) {x : Char} (hx : x = ',' ∨ x = '\n') :
    x ∉ r.label.toList := by
  rcases h with h | h | ⟨k, h⟩
  · rcases hx with rfl | rfl <;> simp [h]
  · rcases hx with rfl | rfl <;> simp [h]
  · rcases hx with rfl | rfl <;> cases k <;> simp [h, DetKind.asStr]

/-- No field of a row contains a separator. -/
theorem notMem_fields {r : Row} (h : r.Labelled) {x : Char} (hx : x = ',' ∨ x = '\n') :
    ∀ f ∈ r.fields, x ∉ f := by
  have hdigit : x.isDigit = false := by rcases hx with rfl | rfl <;> rfl
  have hflag : x ∉ (toString r.detected).toList := by
    rcases hx with rfl | rfl <;> cases r.detected <;> decide
  simp only [Row.fields, List.forall_mem_cons, List.not_mem_nil, false_implies, implies_true,
    and_true]
  exact ⟨notMem_toString hdigit _, notMem_toString hdigit _, notMem_toString hdigit _, hflag,
    h.notMem hx, notMem_toString hdigit _⟩

/-- Rows with the same fields are the same. -/
theorem Row.fields_inj {r r' : Row} (h : r.fields = r'.fields) : r = r' := by
  obtain ⟨faultId, kind, atSeq, detected, label, latencyMs⟩ := r
  obtain ⟨faultId', kind', atSeq', detected', label', latencyMs'⟩ := r'
  simp only [Row.fields, List.cons.injEq, and_true] at h
  obtain ⟨hid, hkind, hseq, hdet, hlabel, hlat⟩ := h
  rw [Row.mk.injEq]
  refine ⟨UInt32.toNat_inj.mp (toString_inj hid), UInt8.toNat_inj.mp (toString_inj hkind),
    UInt16.toNat_inj.mp (toString_inj hseq), flag_inj hdet, String.toList_inj.mp hlabel,
    UInt64.toNat_inj.mp (toString_inj hlat)⟩

/-! ### Reading the report -/

/-- The table of a report, behind its header. -/
def tableOf (csv : String) : List (List (List Char)) :=
  readTable ',' '\n' (csv.toList.drop csvHeader.toList.length)

/-- **The fields are read back** from the report. -/
theorem tableOf_toCsv {res : CampaignResult} (h : ∀ r ∈ res.rows, r.Labelled) :
    tableOf (toCsv res) = res.rows.map Row.fields := by
  rw [tableOf, toList_toCsv, List.drop_left]
  refine readTable_writeTable (by decide) ?_ ?_ ?_ <;> intro row hrow <;>
    obtain ⟨r, hr, rfl⟩ := List.mem_map.mp hrow
  · exact List.cons_ne_nil _ _
  · exact notMem_fields (h r hr) (Or.inl rfl)
  · exact notMem_fields (h r hr) (Or.inr rfl)

/-- The scorer's rows are labelled. -/
theorem labelled_score {opts : Opts} {dets : List Detection} {truths : List GroundTruth} :
    ∀ r ∈ (score opts dets truths).rows, r.Labelled := by
  intro row hrow
  rw [rows_score] at hrow
  obtain ⟨⟨t, m⟩, -, rfl⟩ := List.mem_map.mp hrow
  cases m with
  | some m => exact Or.inr (Or.inr ⟨m.det.kind, rfl⟩)
  | none => cases h : (expectedDets t.kind).isEmpty <;> simp [Row.Labelled, rowOf, h]

/-- **The CSV report is lossless**: when two results whose rows have labels of the scorer
have the same report, they have the same rows. -/
theorem toCsv_lossless {res res' : CampaignResult} (h : ∀ r ∈ res.rows, r.Labelled)
    (h' : ∀ r ∈ res'.rows, r.Labelled) (hcsv : toCsv res = toCsv res') :
    res.rows = res'.rows := by
  have htable : res.rows.map Row.fields = res'.rows.map Row.fields := by
    rw [← tableOf_toCsv h, ← tableOf_toCsv h', hcsv]
  exact List.map_injective_iff.mpr (fun _ _ => Row.fields_inj) htable

/-- Of two DROPs with a DUTY between them, one is detected and one missed, and the reports tell
which. -/
theorem detected_drops_differ :
    let opts : Opts := ⟨true, 1, 100, 5, "fuzz", true⟩
    let truths : List GroundTruth :=
      [⟨1, faultDrop, 10, 0, ⟨0⟩⟩, ⟨2, faultDuty, 12, 0, ⟨0⟩⟩, ⟨3, faultDrop, 20, 0, ⟨5000000⟩⟩]
    let first := score opts [⟨.gap, 11, ⟨2000000⟩, 0⟩] truths
    let second := score opts [⟨.gap, 21, ⟨7000000⟩, 0⟩] truths
    first.rows.map Row.label = ["gap", "physical", "__miss__"] ∧
      second.rows.map Row.label = ["__miss__", "physical", "gap"] ∧
      toCsv first ≠ toCsv second :=
  ⟨by decide +kernel, by decide +kernel, fun h =>
    absurd (toCsv_lossless labelled_score labelled_score h) (by decide +kernel)⟩

end FaultForge
