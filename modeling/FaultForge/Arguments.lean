import FaultForge.Campaign
import FaultForge.Csv

/-!
# The Command Line

`parse_args` looks for each of its options on its own: the value of an option is the word behind
the first place where the option stands, whatever comes later, and a value that cannot be read is
replaced by the default. Words that are none of the options it knows are passed over, `--port`,
`--baud` and `--report` among them.

A command line is put together here from settings, in any order and number (`Setting`); what is
parsed of it is read off the settings (`parseArgs_flatMap`).

## Main results

* `parseUnsigned_toString`: a number that fits is read back.
* `parseArgs_flatMap`: the first setting of each option decides.
* `parseArgs_settings`: options in any order are read back.
-/

namespace FaultForge

/-! ### Numbers -/

/-- The loop of `from_str_radix` in base ten, with its checked multiplication and addition, for a
type whose values are below the bound. -/
def parseDigits (bound : ℕ) : ℕ → List Char → Option ℕ
  | n, [] => some n
  | n, c :: cs =>
      if c.isDigit then
        let m := 10 * n + (c.toNat - '0'.toNat)
        if m < bound then parseDigits bound m cs else none
      else none

/-- `str::parse` for an unsigned type: one plus sign may stand in front, but not alone. -/
def parseUnsigned (bound : ℕ) (s : String) : Option ℕ :=
  match s.toList with
  | [] => none
  | ['+'] => none
  | '+' :: cs => parseDigits bound 0 cs
  | cs => parseDigits bound 0 cs

/-- More digits never make a number smaller, so one that is too large stays so. -/
theorem le_ofDigitChars (cs : List Char) (n : ℕ) : n ≤ Nat.ofDigitChars 10 cs n := by
  rw [Nat.ofDigitChars_eq_ofDigitChars_zero]
  calc n ≤ 10 ^ cs.length * n := Nat.le_mul_of_pos_left n (Nat.pow_pos (by decide))
    _ ≤ _ := Nat.le_add_right _ _

/-- Digits whose number fits are read as that number: no step of the loop overflows before. -/
theorem parseDigits_eq {bound : ℕ} {cs : List Char} (hdigits : ∀ c ∈ cs, c.isDigit = true) (n : ℕ)
    (hfits : Nat.ofDigitChars 10 cs n < bound) :
    parseDigits bound n cs = some (Nat.ofDigitChars 10 cs n) := by
  induction cs generalizing n with
  | nil => rw [parseDigits, Nat.ofDigitChars_nil]
  | cons c cs ih =>
      obtain ⟨hc, hcs⟩ := List.forall_mem_cons.mp hdigits
      rw [Nat.ofDigitChars_cons] at hfits ⊢
      have hstep := (le_ofDigitChars cs _).trans_lt hfits
      rw [parseDigits, if_pos hc]
      simp only [if_pos hstep]
      exact ih hcs _ hfits

/-- **A number that fits is read back.** -/
theorem parseUnsigned_toString {bound n : ℕ} (h : n < bound) :
    parseUnsigned bound (toString n) = some n := by
  have hdigits : ∀ c ∈ Nat.toDigits 10 n, c.isDigit = true := fun c hc =>
    Nat.isDigit_of_mem_toDigits (by decide) (by decide) hc
  have hread := @parseDigits_eq bound _ hdigits 0 (by rwa [Nat.ofDigitChars_ten_toDigits])
  rw [Nat.ofDigitChars_ten_toDigits] at hread
  rw [parseUnsigned, toList_toString]
  split
  · next hnil => exact absurd hnil Nat.toDigits_ne_nil
  · next hplus =>
    rw [hplus] at hdigits
    exact absurd (hdigits '+' (List.mem_singleton_self _)) (by decide)
  · next cs hplus =>
    rw [hplus] at hdigits
    exact absurd (hdigits '+' (List.mem_cons_self ..)) (by decide)
  · exact hread

/-! ### The parser of the command line -/

/-- The word behind the first place where the flag stands. -/
def argVal (args : List String) (flag : String) : Option String :=
  (args.findIdx? (· = flag)).bind fun i => args[i + 1]?

/-- The profiles that are known; another one is replaced by `fuzz`. -/
def knownProfile (name : String) : String :=
  if name = "clean" then "clean"
  else if name = "fuzz" then "fuzz"
  else if name = "emi" then "emi"
  else if name = "stress" then "stress"
  else if name = "delay" then "delay"
  else "fuzz"

/-- The options of a command line, with the defaults for whatever is missing or does not parse. -/
def parseArgs (args : List String) : Opts where
  simulated := args.any (· = "--simulate")
  seed := (((argVal args "--seed").bind (parseUnsigned (2 ^ 32))).map UInt32.ofNat).getD 42
  packets := (((argVal args "--packets").bind (parseUnsigned (2 ^ 16))).map UInt16.ofNat).getD 1500
  cadenceMs :=
    (((argVal args "--cadence-ms").bind (parseUnsigned (2 ^ 16))).map UInt16.ofNat).getD 5
  profile := knownProfile ((argVal args "--profile").getD "fuzz")
  quiet := args.any (· = "--quiet")

/-! ### Settings -/

/-- The options that have a value. -/
inductive Valued where
  | seed
  | packets
  | cadenceMs
  | profile
deriving DecidableEq, Repr

/-- The word in front of the value. -/
def Valued.flag : Valued → String
  | seed => "--seed"
  | packets => "--packets"
  | cadenceMs => "--cadence-ms"
  | profile => "--profile"

/-- The words that the parser looks for. -/
def flags : List String :=
  ["--simulate", "--quiet", "--seed", "--packets", "--cadence-ms", "--profile"]

/-- A word that the parser does not look for. -/
abbrev Word := { s : String // s ∉ flags }

/-- A piece of a command line. -/
inductive Setting where
  | simulate
  | quiet
  | value (o : Valued) (text : Word)
  /-- A word that is passed over, such as the name of the program. -/
  | other (word : Word)
deriving DecidableEq

namespace Setting

/-- A setting on the command line. -/
def words : Setting → List String
  | simulate => ["--simulate"]
  | quiet => ["--quiet"]
  | value o text => [o.flag, text.val]
  | other word => [word.val]

/-- The text that the setting gives an option. -/
def text? (o : Valued) : Setting → Option String
  | value o' text => if o' = o then some text.val else none
  | _ => none

end Setting

/-- The flag of a setting is one that is looked for. -/
theorem Valued.flag_mem (o : Valued) : o.flag ∈ flags := by
  cases o <;> decide

/-- No two settings share a flag. -/
theorem Valued.flag_inj {o o' : Valued} (h : o.flag = o'.flag) : o = o' := by
  revert h
  cases o <;> cases o' <;> decide

/-- By its type, a word is no flag. -/
theorem Word.ne_flag (word : Word) (o : Valued) : word.val ≠ o.flag :=
  fun h => word.property (h ▸ o.flag_mem)

/-- The first occurrence of the flag counts, and the word behind it is the value. -/
theorem argVal_cons (a : String) (args : List String) (flag : String) :
    argVal (a :: args) flag = if a = flag then args.head? else argVal args flag := by
  rw [argVal, argVal, List.findIdx?_cons]
  by_cases h : a = flag
  · simp [h, List.head?_eq_getElem?]
  · simp [h, Option.bind_map]

/-- **The first setting of an option decides.** -/
theorem argVal_flatMap (settings : List Setting) (o : Valued) :
    argVal (settings.flatMap Setting.words) o.flag = settings.findSome? (Setting.text? o) := by
  induction settings with
  | nil => rfl
  | cons s settings ih =>
      rw [List.flatMap_cons, List.findSome?_cons]
      cases s with
      | simulate =>
          have hne : "--simulate" ≠ o.flag := by cases o <;> decide
          rw [Setting.words, List.singleton_append, argVal_cons, if_neg hne, ih]
          rfl
      | quiet =>
          have hne : "--quiet" ≠ o.flag := by cases o <;> decide
          rw [Setting.words, List.singleton_append, argVal_cons, if_neg hne, ih]
          rfl
      | value o' text =>
          rw [Setting.words, Setting.text?, List.cons_append, List.singleton_append, argVal_cons]
          by_cases ho : o' = o
          · rw [if_pos ho, if_pos (congrArg Valued.flag ho)]
            rfl
          · rw [if_neg ho, if_neg (mt Valued.flag_inj ho), argVal_cons, if_neg (text.ne_flag o), ih]
      | other word =>
          rw [Setting.words, List.singleton_append, argVal_cons, if_neg (word.ne_flag o), ih]
          rfl

/-- A switch is found iff it has been set. -/
theorem any_flatMap (settings : List Setting) {s : Setting} {flag : String}
    (hs : s = .simulate ∧ flag = "--simulate" ∨ s = .quiet ∧ flag = "--quiet") :
    (settings.flatMap Setting.words).any (· = flag) = settings.contains s := by
  have hword : ∀ s' : Setting, flag ∈ s'.words ↔ s' = s := by
    intro s'
    cases s' with
    | simulate => rcases hs with ⟨rfl, rfl⟩ | ⟨rfl, rfl⟩ <;> decide
    | quiet => rcases hs with ⟨rfl, rfl⟩ | ⟨rfl, rfl⟩ <;> decide
    | value o text =>
        have hflag : flag ≠ o.flag := by
          rcases hs with ⟨-, rfl⟩ | ⟨-, rfl⟩ <;> cases o <;> decide
        have htext : flag ≠ text.val := by
          rintro rfl
          refine text.property ?_
          rcases hs with ⟨-, h⟩ | ⟨-, h⟩ <;> rw [h] <;> decide
        refine iff_of_false (by simp [Setting.words, hflag, htext]) ?_
        rcases hs with ⟨rfl, -⟩ | ⟨rfl, -⟩ <;> exact Setting.noConfusion
    | other word =>
        have hother : flag ≠ word.val := by
          rintro rfl
          refine word.property ?_
          rcases hs with ⟨-, h⟩ | ⟨-, h⟩ <;> rw [h] <;> decide
        refine iff_of_false (by simp [Setting.words, hother]) ?_
        rcases hs with ⟨rfl, -⟩ | ⟨rfl, -⟩ <;> exact Setting.noConfusion
  rw [Bool.eq_iff_iff]
  simp only [List.any_eq_true, decide_eq_true_eq, exists_eq_right, List.mem_flatMap, hword,
    List.contains_iff_mem]

/-- **What is parsed of a command line**: of each option the first setting decides, whether its
text can be read or not, and a switch is on iff it stands anywhere. -/
theorem parseArgs_flatMap (settings : List Setting) :
    parseArgs (settings.flatMap Setting.words) =
      { simulated := settings.contains .simulate
        seed := (((settings.findSome? (Setting.text? .seed)).bind
          (parseUnsigned (2 ^ 32))).map UInt32.ofNat).getD 42
        packets := (((settings.findSome? (Setting.text? .packets)).bind
          (parseUnsigned (2 ^ 16))).map UInt16.ofNat).getD 1500
        cadenceMs := (((settings.findSome? (Setting.text? .cadenceMs)).bind
          (parseUnsigned (2 ^ 16))).map UInt16.ofNat).getD 5
        profile := knownProfile ((settings.findSome? (Setting.text? .profile)).getD "fuzz")
        quiet := settings.contains .quiet } := by
  rw [parseArgs, any_flatMap settings (.inl ⟨rfl, rfl⟩), any_flatMap settings (.inr ⟨rfl, rfl⟩),
    ← argVal_flatMap settings .seed, ← argVal_flatMap settings .packets,
    ← argVal_flatMap settings .cadenceMs, ← argVal_flatMap settings .profile]
  rfl

/-! ### Round trip -/

/-- A number, written in decimal. -/
def decimal (n : ℕ) : Word :=
  ⟨toString n, fun h => by
    have hdash : ∀ s ∈ flags, '-' ∈ s.toList := by decide
    exact notMem_toString (by decide) n (hdash _ h)⟩

/-- The names that `profile` knows. -/
def profiles : List String :=
  ["clean", "fuzz", "emi", "stress", "delay"]

/-- No profile is called like a flag. -/
theorem notMem_flags_of_profile {name : String} (h : name ∈ profiles) : name ∉ flags := by
  have hall : ∀ name ∈ profiles, name ∉ flags := by decide
  exact hall name h

/-- The name of a known profile is kept. -/
theorem knownProfile_eq {name : String} (h : name ∈ profiles) : knownProfile name = name := by
  have hall : ∀ name ∈ profiles, knownProfile name = name := by decide
  exact hall name h

namespace Opts

variable (opts : Opts) (hprofile : opts.profile ∈ profiles)

/-- The text that asks for these options. -/
def text : Valued → Word
  | .seed => decimal opts.seed.toNat
  | .packets => decimal opts.packets.toNat
  | .cadenceMs => decimal opts.cadenceMs.toNat
  | .profile => ⟨opts.profile, notMem_flags_of_profile hprofile⟩

/-- The settings that ask for these options. -/
def settings : List Setting :=
  [Valued.seed, .packets, .cadenceMs, .profile].map (fun o => .value o (opts.text hprofile o)) ++
    (if opts.simulated then [.simulate] else []) ++ if opts.quiet then [.quiet] else []

/-- The record has one value for each of the four settings that have values. -/
theorem value_mem_settings {o : Valued} {text : Word} :
    .value o text ∈ opts.settings hprofile ↔ text = opts.text hprofile o := by
  have hswitches : .value o text ∉
      (if opts.simulated then [Setting.simulate] else []) ++
        if opts.quiet then [Setting.quiet] else [] := by
    split <;> split <;> simp
  rw [settings, List.append_assoc, List.mem_append, or_iff_left hswitches]
  constructor
  · intro h
    obtain ⟨o', -, heq⟩ := List.mem_map.mp h
    cases heq
    rfl
  · rintro rfl
    exact List.mem_map_of_mem (by cases o <;> decide)

/-- The simulation is asked for iff the record says so. -/
theorem simulate_mem_settings : .simulate ∈ opts.settings hprofile ↔ opts.simulated = true := by
  cases h : opts.simulated <;> cases opts.quiet <;> simp [settings, h]

/-- The same for the quiet mode. -/
theorem quiet_mem_settings : .quiet ∈ opts.settings hprofile ↔ opts.quiet = true := by
  cases opts.simulated <;> cases h : opts.quiet <;> simp [settings, h]

end Opts

/-- When all settings of an option agree, it does not matter which one comes first. -/
theorem findSome?_text {settings : List Setting} {o : Valued} {text : Word}
    (hmem : .value o text ∈ settings)
    (hagree : ∀ text', .value o text' ∈ settings → text' = text) :
    settings.findSome? (Setting.text? o) = some text.val := by
  cases hfound : settings.findSome? (Setting.text? o) with
  | none =>
      have hnone := List.findSome?_eq_none_iff.mp hfound _ hmem
      simp [Setting.text?] at hnone
  | some found =>
      obtain ⟨s, hs, hsome⟩ := List.exists_of_findSome?_eq_some hfound
      cases s with
      | value o' text' =>
          rw [Setting.text?] at hsome
          split at hsome
          · next ho =>
            subst ho
            rw [hagree text' hs] at hsome
            exact congrArg some (Option.some.inj hsome).symm
          · cases hsome
      | simulate => cases hsome
      | quiet => cases hsome
      | other word => cases hsome

/-- **Options are read back** from every command line that has their settings, in any order, each
as often as one likes, and with any words in between that the parser does not look for. -/
theorem parseArgs_settings (opts : Opts) (hprofile : opts.profile ∈ profiles)
    (others : List Word) (settings : List Setting)
    (hsame : ∀ s, s ∈ settings ↔ s ∈ others.map .other ++ opts.settings hprofile) :
    parseArgs (settings.flatMap Setting.words) = opts := by
  have hmem : ∀ s, (∀ word, s ≠ .other word) → (s ∈ settings ↔ s ∈ opts.settings hprofile) := by
    intro s hs
    rw [hsame, List.mem_append, or_iff_right]
    intro h
    obtain ⟨word, -, rfl⟩ := List.mem_map.mp h
    exact hs word rfl
  have htext : ∀ o, settings.findSome? (Setting.text? o) = some (opts.text hprofile o).val := by
    intro o
    refine findSome?_text ?_ fun text' htext' => ?_
    · exact (hmem _ fun _ => Setting.noConfusion).mpr ((opts.value_mem_settings hprofile).mpr rfl)
    · exact (opts.value_mem_settings hprofile).mp ((hmem _ fun _ => Setting.noConfusion).mp htext')
  have hsimulate : settings.contains .simulate = opts.simulated := by
    rw [Bool.eq_iff_iff, List.contains_iff_mem, hmem _ fun _ => Setting.noConfusion,
      opts.simulate_mem_settings]
  have hquiet : settings.contains .quiet = opts.quiet := by
    rw [Bool.eq_iff_iff, List.contains_iff_mem, hmem _ fun _ => Setting.noConfusion,
      opts.quiet_mem_settings]
  have hnumber : ∀ {bound n : ℕ}, n < bound →
      (some (decimal n).val).bind (parseUnsigned bound) = some n := fun h =>
    parseUnsigned_toString h
  rw [parseArgs_flatMap, htext, htext, htext, htext, hsimulate, hquiet]
  simp only [Opts.text, hnumber opts.seed.toNat_lt, hnumber opts.packets.toNat_lt,
    hnumber opts.cadenceMs.toNat_lt, Option.map_some, Option.getD_some, UInt32.ofNat_toNat,
    UInt16.ofNat_toNat, knownProfile_eq hprofile]

/-- The profile first, the seed twice, and words that nobody looks for. -/
def emiLine : List Setting :=
  [.other ⟨"faultforge", by decide⟩, .value .profile ⟨"emi", by decide⟩,
    .value .seed ⟨"7", by decide⟩, .quiet, .value .cadenceMs ⟨"3", by decide⟩,
    .value .seed ⟨"7", by decide⟩, .other ⟨"--baud", by decide⟩, .other ⟨"9600", by decide⟩,
    .value .packets ⟨"65535", by decide⟩]

/-- A line with settings out of order, one of them repeated, and words that are not looked for. -/
theorem parseArgs_emiLine :
    parseArgs ["faultforge", "--profile", "emi", "--seed", "7", "--quiet", "--cadence-ms", "3",
      "--seed", "7", "--baud", "9600", "--packets", "65535"] =
        ⟨false, 7, 65535, 3, "emi", true⟩ := by
  have hthere : ∀ s ∈ emiLine, s ∈ [⟨"faultforge", by decide⟩, ⟨"--baud", by decide⟩,
      ⟨"9600", by decide⟩].map .other ++
        Opts.settings ⟨false, 7, 65535, 3, "emi", true⟩ (by decide) := by
    decide +kernel
  have hback : ∀ s ∈ [⟨"faultforge", by decide⟩, ⟨"--baud", by decide⟩,
      ⟨"9600", by decide⟩].map .other ++
        Opts.settings ⟨false, 7, 65535, 3, "emi", true⟩ (by decide), s ∈ emiLine := by
    decide +kernel
  exact parseArgs_settings _ _ _ emiLine fun s => ⟨hthere s, hback s⟩

end FaultForge
