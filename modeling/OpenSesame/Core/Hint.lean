import OpenSesame.Util
import Mathlib.Data.List.Sort

/-!
# Hint sequences

`core/hint.rs`: a hint is one letter repeated, and the `n`th window of a base letter's group
gets it `n` times. `assignIn` takes the order the grouping map is visited in as an argument.
-/

namespace OpenSesame

/-- `count` copies of `base`. Only `HintSequence::new` builds one, so the two facts it ensures are
fields. -/
structure HintSequence where
  base : Char
  count : Nat
  base_lower : base.toLower = base
  count_pos : 0 < count
deriving DecidableEq, Repr

namespace HintSequence

def new (base : Char) (count : Nat) : HintSequence :=
  ⟨base.toLower, max count 1, Char.toLower_toLower base, by omega⟩

@[simp] theorem new_base (base : Char) (count : Nat) : (new base count).base = base.toLower := rfl

@[simp] theorem new_count (base : Char) (count : Nat) : (new base count).count = max count 1 :=
  rfl

def asString (h : HintSequence) : String := ⟨List.replicate h.count h.base⟩

@[simp] theorem asString_data (h : HintSequence) : h.asString.data = List.replicate h.count h.base :=
  rfl

theorem asString_injective : Function.Injective asString := by
  intro a b h
  have hd := congrArg String.data h
  simp only [asString_data, List.replicate_inj] at hd
  obtain ⟨hc, hb | hb⟩ := hd
  · exact absurd hb (Nat.pos_iff_ne_zero.1 a.count_pos)
  · cases a; cases b
    simp_all

theorem new_base_count (h : HintSequence) : new h.base h.count = h := by
  obtain ⟨b, n, hb, hn⟩ := h
  simp only [new, hb, mk.injEq, true_and]
  omega

/-- Lowercase, take the first character as the base, and count the bytes. -/
def fromRepeated (L : Lowercase) (s : String) : Option HintSequence :=
  let s := L.toLowercase s.data
  match s.head? with
  | none => none
  | some base =>
    if !base.isAlpha then none
    else
      let count := String.utf8ByteSize ⟨s⟩
      if s.all (· == base) then some (new base count) else none

/-- Under any lowercase table: a text whose lowercase is a non-empty run of one ASCII letter. -/
theorem fromRepeated_eq_some_iff (L : Lowercase) (s : String) (seq : HintSequence) :
    fromRepeated L s = some seq ↔ ∃ base n, 0 < n ∧ base.isAlpha ∧
      L.toLowercase s.data = List.replicate n base ∧ seq = new base n := by
  simp only [fromRepeated]
  generalize L.toLowercase s.data = l
  constructor
  · intro h
    cases l with
    | nil => simp at h
    | cons base rest =>
      by_cases ha : base.isAlpha
      · simp only [List.head?_cons, ha, Bool.not_true, Bool.false_eq_true, if_false] at h
        split_ifs at h with hall
        have hrep : base :: rest = List.replicate (rest.length + 1) base :=
          List.eq_replicate_iff.2 ⟨rfl, by simpa using hall⟩
        have hascii : base.toNat < 128 := by have := (Char.isAlpha_iff base).1 ha; omega
        refine ⟨base, rest.length + 1, Nat.succ_pos _, ha, hrep, ?_⟩
        rw [← Option.some.inj h, hrep, String.utf8ByteSize_replicate hascii]
      · simp [ha] at h
  · rintro ⟨base, n, hn, ha, rfl, rfl⟩
    have hascii : base.toNat < 128 := by have := (Char.isAlpha_iff base).1 ha; omega
    simp [List.head?_replicate, Nat.pos_iff_ne_zero.1 hn, ha, String.utf8ByteSize_replicate hascii]

/-- On ASCII text `from_repeated` accepts exactly a run of one letter in either case, and reads back
every hint `new` builds. -/
theorem fromRepeated_ascii_and_round_trip (L : Lowercase) :
    (∀ (s : String) (seq : HintSequence), (∀ c ∈ s.data, c.toNat < 128) →
      (fromRepeated L s = some seq ↔ seq.base.isAlpha ∧ s.data.length = seq.count ∧
        ∀ c ∈ s.data, c = seq.base ∨ c = seq.base.toUpper)) ∧
    ∀ (b : Char) (n : Nat), b.isAlpha → fromRepeated L (new b n).asString = some (new b n) := by
  refine ⟨fun s seq hs => ?_, fun b n hb => ?_⟩
  · rw [fromRepeated_eq_some_iff, L.map_ascii _ hs]
    constructor
    · rintro ⟨base, n, hn, ha, hmap, rfl⟩
      have hlen : s.data.length = n := by simpa using congrArg List.length hmap
      have hall : ∀ c ∈ s.data, c.toLower = base := fun c hc =>
        (List.eq_replicate_iff.1 hmap).2 _ (List.mem_map_of_mem _ hc)
      have hbl : base.toLower = base := by
        obtain ⟨c, hc⟩ := List.exists_mem_of_length_pos (hlen ▸ hn)
        rw [← hall c hc, Char.toLower_toLower]
      refine ⟨by simpa [hbl] using ha, by simp [hlen]; omega, fun c hc => ?_⟩
      simpa [hbl] using (Char.toLower_eq_iff (Char.lower_of_isAlpha ha hbl)).1 (hall c hc)
    · rintro ⟨ha, hlen, hall⟩
      refine ⟨seq.base, seq.count, seq.count_pos, ha, ?_, (new_base_count seq).symm⟩
      refine List.eq_replicate_iff.2 ⟨by rw [List.length_map, hlen], ?_⟩
      simp only [List.mem_map]
      rintro _ ⟨c, hc, rfl⟩
      exact (Char.toLower_eq_iff (Char.lower_of_isAlpha ha seq.base_lower)).2 (hall c hc)
  · have hlow := Char.lower_of_isAlpha (Char.isAlpha_toLower hb) (Char.toLower_toLower b)
    have hascii : ∀ c ∈ (new b n).asString.data, c.toNat < 128 := by
      intro c hc
      rw [asString_data, List.mem_replicate] at hc
      rw [hc.2, new_base]
      omega
    rw [fromRepeated_eq_some_iff, L.map_ascii _ hascii]
    refine ⟨(new b n).base, (new b n).count, (new b n).count_pos, Char.isAlpha_toLower hb, ?_,
      (new_base_count _).symm⟩
    rw [asString_data, List.map_replicate, (new b n).base_lower]

theorem fromRepeated_ascii_and_round_trip_gGg :
    (∀ c ∈ "gGg".data, c.toNat < 128) ∧
    (fromRepeated .asciiOnly "gGg" = some (new 'g' 3) ↔ (new 'g' 3).base.isAlpha ∧
      "gGg".data.length = (new 'g' 3).count ∧
        ∀ c ∈ "gGg".data, c = (new 'g' 3).base ∨ c = (new 'g' 3).base.toUpper) ∧
    fromRepeated .asciiOnly (new 'G' 2).asString = some (new 'G' 2) :=
  ⟨by decide, (fromRepeated_ascii_and_round_trip .asciiOnly).1 "gGg" (new 'g' 3) (by decide),
    (fromRepeated_ascii_and_round_trip .asciiOnly).2 'G' 2 (by decide)⟩

/-- `from_repeated` reads U+212A KELVIN SIGN as the hint `k`, though it is neither `k` nor `K`. -/
theorem fromRepeated_kelvin_sign :
    ¬ ∀ (s : String) (seq : HintSequence), fromRepeated .withKelvinSign s = some seq ↔
      seq.base.isAlpha ∧ s.data.length = seq.count ∧
        ∀ c ∈ s.data, c = seq.base ∨ c = seq.base.toUpper := fun h =>
  absurd ((h "\u212A" (new 'k' 1)).1 (by decide)).2.2 (by decide)

end HintSequence

/-- The `while` loop of `normalize_input`, back over a trailing run of ASCII digits. -/
def letterEnd (chars : List Char) : Nat → Nat
  | 0 => 0
  | n + 1 => if (chars.getD n ' ').isDigit then letterEnd chars n else n + 1

/-- The letter-and-number branch of `normalize_input`: "g2" to "gg" when every test of its `if let`
chain passes. -/
def expandSuffix (chars : List Char) : Option (List Char) := do
  let last ← chars.getLast?
  guard last.isDigit
  let letter_end := letterEnd chars (chars.length - 1)
  guard (0 < letter_end)
  let letters := chars.take letter_end
  let num ← fromStrRadix 10 usizeMax (chars.drop letter_end)
  guard (0 < num ∧ num ≤ 26)
  let base ← letters.head?
  guard (letters.all (· == base))
  pure (List.replicate num base)

/-- The length test is on bytes, as `str::len` is. -/
def normalizeInput (L : Lowercase) (input : String) : String :=
  let input := L.toLowercase input.data
  if 2 ≤ String.utf8ByteSize ⟨input⟩ then ⟨(expandSuffix input).getD input⟩ else ⟨input⟩

theorem expandSuffix_ne_nil {chars r : List Char} (h : expandSuffix chars = some r) : r ≠ [] := by
  unfold expandSuffix at h
  simp [Option.bind_eq_some] at h
  obtain ⟨-, -, -, -, num, -, ⟨hnum, -⟩, -, -, -, rfl⟩ := h
  simpa using Nat.pos_iff_ne_zero.1 hnum

theorem normalizeInput_ne_nil (L : Lowercase) {input : String} (h : input.data ≠ []) :
    (normalizeInput L input).data ≠ [] := by
  unfold normalizeInput; dsimp only
  have hl := L.ne_nil _ h
  split_ifs
  · cases he : expandSuffix (L.toLowercase input.data) with
    | none => simpa [he] using hl
    | some r => simpa [he] using expandSuffix_ne_nil he
  · exact hl

theorem letterEnd_replicate {c : Char} (hc : c.isDigit) {m : Nat} :
    ∀ k ≤ m, letterEnd (List.replicate m c) k = 0
  | 0, _ => rfl
  | k + 1, hk => by
    have hget : (List.replicate m c).getD k ' ' = c := by
      simp [List.getD_eq_getElem?_getD, List.getElem?_replicate, show k < m by omega]
    rw [letterEnd, hget, if_pos hc]
    exact letterEnd_replicate hc k (by omega)

theorem expandSuffix_replicate (c : Char) {m : Nat} (hm : 0 < m) :
    expandSuffix (List.replicate m c) = none := by
  have hlast : (List.replicate m c).getLast? = some c := by
    simp [List.getLast?_replicate, Nat.pos_iff_ne_zero.1 hm]
  by_cases hd : c.isDigit
  · simp [expandSuffix, hlast, hd, letterEnd_replicate hd (m - 1) (Nat.sub_le m 1)]
  · simp [expandSuffix, hlast, hd]

theorem normalizeInput_replicate (L : Lowercase) {c : Char} (hascii : c.toNat < 128)
    (hlow : c.toLower = c) {m : Nat} (hm : 0 < m) :
    normalizeInput L ⟨List.replicate m c⟩ = ⟨List.replicate m c⟩ := by
  have hl : L.toLowercase (List.replicate m c) = List.replicate m c := by
    rw [L.map_ascii _ fun d hd => (List.eq_of_mem_replicate hd) ▸ hascii]
    simp [hlow]
  simp only [normalizeInput, hl, expandSuffix_replicate c hm, Option.getD_none, ite_self]

namespace HintSequence

def matchesInput (L : Lowercase) (h : HintSequence) (input : String) : Bool :=
  (normalizeInput L input).data.isPrefixOf h.asString.data

def equalsInput (L : Lowercase) (h : HintSequence) (input : String) : Bool :=
  h.asString == normalizeInput L input

theorem matchesInput_iff (L : Lowercase) (h : HintSequence) (input : String) :
    h.matchesInput L input = true ↔
      (normalizeInput L input).data.length ≤ h.count ∧ ∀ c ∈ (normalizeInput L input).data, c = h.base := by
  simp [matchesInput]

end HintSequence

/-- `core::Window`; the `WindowId` and `AppId` newtypes are their strings. -/
structure Window where
  id : String
  appId : String
  title : String
  isFocused : Bool
deriving DecidableEq, Repr

/-- `index` is the window's position in the enumerated list. -/
structure WindowHint where
  hint : HintSequence
  windowId : String
  appId : String
  title : String
  index : Nat
deriving DecidableEq, Repr

def autoGenerateKey (L : Lowercase) (app_id : String) : Option Char :=
  (L.toLowercase (lastSegment app_id).data).find? Char.isAlpha

/-- The configured key, else the generated one, else `'x'`. -/
def baseFor (L : Lowercase) (key_for_app : String → Option Char) (w : Window) : Char :=
  ((key_for_app w.appId).orElse fun _ => autoGenerateKey L w.appId).getD 'x'

/-- `by_base.entry(k).or_default().push(a)`. -/
def pushEntry {κ α : Type} [DecidableEq κ] : List (κ × List α) → κ → α → List (κ × List α)
  | [], k, a => [(k, [a])]
  | (k', as) :: rest, k, a =>
    if k' = k then (k', as ++ [a]) :: rest else (k', as) :: pushEntry rest k a

def byBase (L : Lowercase) (key_for_app : String → Option Char) (windows : List Window) :
    List (Char × List (Nat × Window)) :=
  windows.enum.foldl (fun m iw => pushEntry m (baseFor L key_for_app iw.2) iw) []

def groupHint (base : Char) (window_idx : Nat) (iw : Nat × Window) : WindowHint :=
  { hint := .new base (window_idx + 1), windowId := iw.2.id, appId := iw.2.appId,
    title := iw.2.title, index := iw.1 }

def groupHints (groups : List (Char × List (Nat × Window))) : List WindowHint :=
  groups.flatMap fun g => g.2.enum.map fun jw => groupHint g.1 jw.1 jw.2

/-- `HintAssignment::assign` with `by_base` iterated in the order `groups`; `sort_by_key` is stable,
as insertion sort is. -/
def assignIn (groups : List (Char × List (Nat × Window))) : List WindowHint :=
  (groupHints groups).insertionSort fun a b => a.index ≤ b.index

structure HintAssignment where
  hints : List WindowHint

def HintAssignment.assign (L : Lowercase) (windows : List Window)
    (key_for_app : String → Option Char) : HintAssignment :=
  ⟨assignIn (byBase L key_for_app windows)⟩

end OpenSesame
