import FaultForge.Lib.Words

/-!
# The Command Loop

The firmware reads a line of at most 64 bytes from its serial port, decodes and trims it,
and collects its words (`FaultForge.Lib.Words`) in a vector for four of them, of which
`handle_command` looks at two. A line that is not valid UTF-8 is an empty one, and a line
whose first word is no command is answered; but a line of five words is more than the vector
holds, and collecting it panics. Nine bytes are enough for that
(`survives_of_length_le`).

## Main results

* `survives_iff`: which lines the loop survives.
* `survives_of_length_le`: the lines that are too short to do harm.
-/

namespace FaultForge

open Words

/-! ### Reading a line -/

/-- `char::is_whitespace`, the Unicode property `White_Space`. -/
def isWhitespace (c : Char) : Bool :=
  let n := c.toNat
  (0x9 ≤ n && n ≤ 0xD) || n = 0x20 || n = 0x85 || n = 0xA0 || n = 0x1680 ||
    (0x2000 ≤ n && n ≤ 0x200A) || n = 0x2028 || n = 0x2029 || n = 0x202F || n = 0x205F ||
    n = 0x3000

/-- `core::str::from_utf8(..).unwrap_or("")`. -/
def decode (bytes : List UInt8) : List Char :=
  ((String.fromUTF8? ⟨bytes.toArray⟩).getD "").toList

/-- A vector with room for a fixed number of elements. -/
structure HeaplessVec (α : Type*) (capacity : ℕ) where
  toList : List α
  length_le : toList.length ≤ capacity

/-- Collect elements into a vector; more elements than there is room for are a panic. -/
def HeaplessVec.collect {α : Type*} (capacity : ℕ) (xs : List α) :
    Option (HeaplessVec α capacity) :=
  if h : xs.length ≤ capacity then some ⟨xs, h⟩ else none

/-! ### Commands -/

/-- What a command does: nothing, a call with the second word, or a reply. -/
inductive Response where
  | idle
  | printHelp
  | aesDemo (arg : Option String)
  | faultDemo (arg : Option String)
  | scoCapture (arg : Option String)
  | trngDemo (arg : Option String)
  | canaryCmd (arg : Option String)
  | write (text : String)
deriving DecidableEq, Repr

/-- The answer to a command that is not known. -/
def unknownCommand : String := "Unknown command. Type 'help'\r\n"

/-- The `match` of `handle_command` on the words. -/
def dispatchCommand : List String → Response
  | [] => .idle
  | name :: args =>
      match name with
      | "help" => .printHelp
      | "aes" => .aesDemo args.head?
      | "fault" => .faultDemo args.head?
      | "sco" => .scoCapture args.head?
      | "trng" => .trngDemo args.head?
      | "canary" => .canaryCmd args.head?
      | _ => .write unknownCommand

/-- What becomes of a line: nothing for a blank one, and a panic for more words than there is room
for. -/
def handleCommand (cmd : List Char) : Option Response := do
  let parts ← HeaplessVec.collect 4 ((words isWhitespace cmd).map String.ofList)
  return dispatchCommand parts.toList

/-! ### The loop -/

/-- What `blocking_read` returns, with the bytes that it has put into the buffer. -/
inductive UartRead where
  | err
  | ok (bytes : List UInt8) (length_le : bytes.length ≤ 64)

/-- One round of the loop. -/
def commandRound : UartRead → Option Response
  | .ok bytes _ =>
      if 0 < bytes.length then handleCommand (trim isWhitespace (decode bytes)) else some .idle
  | .err => some .idle

/-- The loop over a number of reads. -/
def commandLoop (reads : List UartRead) : Option (List Response) :=
  reads.mapM commandRound

/-- The words of a line. -/
def lineWords (line : List UInt8) : List String :=
  (words isWhitespace (decode line)).map String.ofList

/-- The names of the commands. -/
def commandNames : List String := ["help", "aes", "fault", "sco", "trng", "canary"]

/-- **The loop survives a line**: the round completes, an empty line is ignored, an unknown
command is answered, and the loop goes on with the next reads. -/
def Survives (line : List UInt8) (hlen : line.length ≤ 64) : Prop :=
  ∃ response, commandRound (.ok line hlen) = some response ∧
    (lineWords line = [] → response = .idle) ∧
    (∀ name args, lineWords line = name :: args → name ∉ commandNames →
      response = .write unknownCommand) ∧
    ∀ rest, commandLoop (.ok line hlen :: rest) = (commandLoop rest).map (response :: ·)

/-- Any other name is answered in the same way. -/
theorem dispatchCommand_unknown {name : String} (h : name ∉ commandNames) (args : List String) :
    dispatchCommand (name :: args) = .write unknownCommand := by
  simp only [commandNames, List.mem_cons, List.not_mem_nil, or_false, not_or] at h
  simp only [dispatchCommand]
  split <;> simp_all

/-- A round dispatches on the words of the line, when there is room for them. -/
theorem commandRound_ok (line : List UInt8) (hlen : line.length ≤ 64) :
    commandRound (.ok line hlen) =
      if (lineWords line).length ≤ 4 then some (dispatchCommand (lineWords line)) else none := by
  cases line with
  | nil => rfl
  | cons b bs =>
      have hpos : 0 < (b :: bs).length := Nat.succ_pos _
      rw [commandRound, if_pos hpos, handleCommand, words_trim, ← lineWords,
        HeaplessVec.collect]
      split <;> rfl

/-- There are as many words as places where a word begins. -/
theorem length_lineWords (line : List UInt8) :
    (lineWords line).length = starts isWhitespace true (decode line) := by
  rw [lineWords, List.length_map, length_words]

/-- A line whose words there is room for is handled. -/
theorem survives_of_length_words_le {line : List UInt8} (h : (lineWords line).length ≤ 4)
    (hlen : line.length ≤ 64) : Survives line hlen := by
  have hround := commandRound_ok line hlen
  rw [if_pos h] at hround
  refine ⟨_, hround, ?_, ?_, ?_⟩
  · intro hempty
    rw [hempty]
    rfl
  · intro name args hwords hname
    rw [hwords, dispatchCommand_unknown hname]
  · intro rest
    rw [commandLoop, List.mapM_cons, hround]
    exact (Option.map_eq_bind ..).symm

/-- A line of more words is not. -/
theorem length_words_le_of_survives {line : List UInt8} {hlen : line.length ≤ 64}
    (h : Survives line hlen) : (lineWords line).length ≤ 4 := by
  obtain ⟨response, hround, -⟩ := h
  by_contra hmany
  rw [commandRound_ok, if_neg hmany] at hround
  exact absurd hround nofun

/-! ### Short lines -/

/-- A character has at least one byte. -/
theorem length_le_size_utf8Encode (chars : List Char) :
    chars.length ≤ chars.utf8Encode.size := by
  induction chars with
  | nil => exact Nat.zero_le _
  | cons c chars ih =>
      have hc := c.utf8Size_pos
      rw [List.utf8Encode_cons, ByteArray.size_append, List.utf8Encode_singleton,
        List.size_toByteArray, String.length_utf8EncodeChar, List.length_cons]
      omega

/-- The bytes of a text are decoded to it. -/
theorem decode_toByteArray {line : List UInt8} (text : String)
    (h : ⟨line.toArray⟩ = text.toByteArray) : decode line = text.toList := by
  rw [decode, h, String.fromUTF8?, dif_pos text.isValidUTF8]
  rfl

/-- Decoding a line gives no more characters than it has bytes. -/
theorem length_decode_le (line : List UInt8) : (decode line).length ≤ line.length := by
  by_cases hvalid : ByteArray.IsValidUTF8 ⟨line.toArray⟩
  · have hbytes : ⟨line.toArray⟩ = (String.fromUTF8 ⟨line.toArray⟩ hvalid).toByteArray := rfl
    rw [decode_toByteArray _ hbytes]
    have hsize := length_le_size_utf8Encode (String.fromUTF8 ⟨line.toArray⟩ hvalid).toList
    rw [String.utf8Encode_toList, ← hbytes] at hsize
    exact hsize
  · rw [decode, String.fromUTF8?, dif_neg hvalid]
    exact Nat.zero_le _

/-- A line of less than nine bytes has at most four words. -/
theorem survives_of_length_le {line : List UInt8} (h : line.length ≤ 8) :
    Survives line (h.trans (by decide)) := by
  refine survives_of_length_words_le ?_ _
  have hchars := length_decode_le line
  have hwords : 2 * starts isWhitespace true (decode line) ≤ (decode line).length + 1 :=
    (two_mul_starts_le _).1
  rw [length_lineWords]
  omega

/-! ### All lines -/

/-- **Which lines the loop survives**: those with at most four words. -/
theorem survives_iff (line : List UInt8) (hlen : line.length ≤ 64) :
    Survives line hlen ↔ starts isWhitespace true (decode line) ≤ 4 := by
  rw [← length_lineWords]
  exact ⟨length_words_le_of_survives, fun h => survives_of_length_words_le h hlen⟩

/-- `trng health` is a line of two words. -/
theorem trng_health_survives :
    Survives [116, 114, 110, 103, 32, 104, 101, 97, 108, 116, 104, 13, 10] (by decide) := by
  refine (survives_iff _ _).mpr ?_
  rw [decode_toByteArray "trng health\r\n" (by decide)]
  decide

/-- `a b c d e` is a line of five. -/
theorem five_words_panic :
    ¬ ∀ (line : List UInt8) (hlen : line.length ≤ 64), 0 < line.length → Survives line hlen := by
  intro h
  have hwords := length_words_le_of_survives
    (h [97, 32, 98, 32, 99, 32, 100, 32, 101] (by decide) (by decide))
  rw [length_lineWords, decode_toByteArray "a b c d e" (by decide)] at hwords
  exact absurd hwords (by decide)

end FaultForge
