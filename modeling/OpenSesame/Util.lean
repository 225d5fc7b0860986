import Mathlib.Data.String.Basic
import Mathlib.Data.List.Nodup

/-!
# Standard-library pieces

`usize` and `u64` are `Nat`, an `Instant` or a `Duration` counts nanoseconds, and `Lowercase` is
the Unicode tables of `str::to_lowercase`, a parameter with the two facts the code relies on.
-/

namespace OpenSesame

/-- Rust's `str::to_lowercase`: it never empties a non-empty string, and is `to_ascii_lowercase` on
ASCII text. -/
structure Lowercase where
  toLowercase : List Char → List Char
  ne_nil : ∀ s, s ≠ [] → toLowercase s ≠ []
  map_ascii : ∀ s, (∀ c ∈ s, c.toNat < 128) → toLowercase s = s.map Char.toLower

def Lowercase.asciiOnly : Lowercase where
  toLowercase s := s.map Char.toLower
  ne_nil s h := by simpa using h
  map_ascii _ _ := rfl

/-- `asciiOnly` and U+212A KELVIN SIGN lowercased to `k`, as Unicode does. -/
def Lowercase.withKelvinSign : Lowercase where
  toLowercase s := s.map fun c => if c = '\u212A' then 'k' else c.toLower
  ne_nil s h := by simpa using h
  map_ascii s h := List.map_congr_left fun c hc => by
    have : c ≠ '\u212A' := fun he => by have := h c hc; simp [he] at this
    simp [this]

theorem Char.toNat_ofNat_of_valid {n : Nat} (h : n.isValidChar) : (Char.ofNat n).toNat = n := by
  have hn : n < UInt32.size := by
    rcases h with h | h <;> simp only [UInt32.size] <;> omega
  simp [Char.ofNat, h, Char.ofNatAux, Char.toNat, UInt32.toNat, Nat.mod_eq_of_lt hn]

@[simp] theorem Char.toLower_toLower (c : Char) : c.toLower.toLower = c.toLower := by
  by_cases h : 65 ≤ c.toNat ∧ c.toNat ≤ 90
  · have ht := Char.toNat_ofNat_of_valid (n := c.toNat + 32) (Or.inl (by omega))
    simp only [Char.toLower, ge_iff_le, h, and_self, ↓reduceIte, ht]
    rw [if_neg (by omega)]
  · simp [Char.toLower, h]

theorem Char.toLower_printable {c : Char} (h : 0x20 ≤ c.toNat ∧ c.toNat ≤ 0x7e) :
    0x20 ≤ c.toLower.toNat ∧ c.toLower.toNat ≤ 0x7e := by
  by_cases hu : 65 ≤ c.toNat ∧ c.toNat ≤ 90
  · have ht := Char.toNat_ofNat_of_valid (n := c.toNat + 32) (Or.inl (by omega))
    simp only [Char.toLower, ge_iff_le, hu, and_self, ↓reduceIte, ht]
    omega
  · simpa [Char.toLower, hu] using h

theorem Char.eq_of_toNat_eq {c d : Char} (h : c.toNat = d.toNat) : c = d :=
  Char.ext (UInt32.eq_of_val_eq (Fin.ext h))

theorem Char.isAlpha_iff (c : Char) :
    c.isAlpha ↔ (65 ≤ c.toNat ∧ c.toNat ≤ 90) ∨ (97 ≤ c.toNat ∧ c.toNat ≤ 122) := by
  simp [Char.isAlpha, Char.isUpper, Char.isLower]
  rfl

theorem Char.toNat_toLower_of_upper {c : Char} (h : 65 ≤ c.toNat ∧ c.toNat ≤ 90) :
    c.toLower.toNat = c.toNat + 32 := by
  simp only [Char.toLower, ge_iff_le, h, and_self, ↓reduceIte]
  exact Char.toNat_ofNat_of_valid (Or.inl (by omega))

theorem Char.toLower_of_not_upper {c : Char} (h : ¬ (65 ≤ c.toNat ∧ c.toNat ≤ 90)) :
    c.toLower = c := by
  simp only [Char.toLower, ge_iff_le, h, ↓reduceIte]

theorem Char.lower_of_isAlpha {c : Char} (ha : c.isAlpha) (hl : c.toLower = c) :
    97 ≤ c.toNat ∧ c.toNat ≤ 122 := by
  rcases (Char.isAlpha_iff c).1 ha with hu | hlow
  · have := Char.toNat_toLower_of_upper hu
    rw [hl] at this
    omega
  · exact hlow

theorem Char.isAlpha_toLower {c : Char} (ha : c.isAlpha) : c.toLower.isAlpha := by
  rw [Char.isAlpha_iff] at ha ⊢
  by_cases hu : 65 ≤ c.toNat ∧ c.toNat ≤ 90
  · rw [Char.toNat_toLower_of_upper hu]; omega
  · rw [Char.toLower_of_not_upper hu]; exact ha

theorem Char.toLower_eq_iff {b c : Char} (hb : 97 ≤ b.toNat ∧ b.toNat ≤ 122) :
    c.toLower = b ↔ c = b ∨ c = b.toUpper := by
  have hup : b.toUpper.toNat = b.toNat - 32 := by
    simp only [Char.toUpper, ge_iff_le, hb, and_self, ↓reduceIte]
    exact Char.toNat_ofNat_of_valid (Or.inl (by omega))
  by_cases hu : 65 ≤ c.toNat ∧ c.toNat ≤ 90
  · have hl := Char.toNat_toLower_of_upper hu
    constructor
    · intro h
      exact Or.inr (Char.eq_of_toNat_eq (by rw [hup, ← h, hl]; omega))
    · rintro (rfl | rfl)
      · omega
      · exact Char.eq_of_toNat_eq (by rw [hl, hup]; omega)
  · rw [Char.toLower_of_not_upper hu]
    refine ⟨Or.inl, fun h => h.resolve_right fun he => hu ?_⟩
    rw [he, hup]
    omega

theorem Char.utf8Size_of_ascii {c : Char} (h : c.toNat < 128) : c.utf8Size = 1 := by
  simp only [Char.utf8Size]
  exact if_pos (Nat.le_of_lt_succ h)

theorem String.utf8ByteSize_of_ascii {l : List Char} (h : ∀ c ∈ l, c.toNat < 128) :
    String.utf8ByteSize ⟨l⟩ = l.length := by
  show String.utf8ByteSize.go l = l.length
  induction l with
  | nil => rfl
  | cons c l ih =>
    simp only [List.forall_mem_cons] at h
    simp only [String.utf8ByteSize.go, ih h.2, Char.utf8Size_of_ascii h.1, List.length_cons]

theorem String.utf8ByteSize_replicate {c : Char} (h : c.toNat < 128) (n : Nat) :
    String.utf8ByteSize ⟨List.replicate n c⟩ = n := by
  rw [String.utf8ByteSize_of_ascii fun d hd => List.eq_of_mem_replicate hd ▸ h,
    List.length_replicate]

def charToDigit (radix : Nat) (c : Char) : Option Nat :=
  let digit :=
    if '0' ≤ c ∧ c ≤ '9' then c.toNat - '0'.toNat
    else if c.isAlpha then c.toLower.toNat - 'a'.toNat + 10
    else radix
  if digit < radix then some digit else none

def digitsValue (radix max : Nat) (digits : List Char) : Option Nat :=
  digits.foldlM (fun result c => do
    let x ← charToDigit radix c
    let v := result * radix + x
    if v ≤ max then some v else none) 0

/-- Rust's `from_str_radix` for an unsigned type whose largest value is `max`: one optional `+`,
then at least one digit. -/
def fromStrRadix (radix max : Nat) : List Char → Option Nat
  | [] => none
  | ['+'] => none
  | ['-'] => none
  | '+' :: digits => digitsValue radix max digits
  | digits => digitsValue radix max digits

/-- `std::collections::HashMap` as its entries with distinct keys; `entries` is the iteration order,
which Rust leaves unspecified. -/
structure HashMap (κ α : Type) where
  entries : List (κ × α)
  nodup_keys : (entries.map Prod.fst).Nodup

namespace HashMap

theorem find?_filter_of_imp {κ α : Type} {p q : κ × α → Bool} (hpq : ∀ e, p e → q e) (l : List (κ × α)) :
    (l.filter q).find? p = l.find? p := by
  induction l with
  | nil => rfl
  | cons e l ih =>
    by_cases hq : q e
    · simp [List.filter_cons, hq, List.find?_cons, ih]
    · have hp : p e = false := by simpa using mt (hpq e) hq
      simp [List.filter_cons, hq, List.find?_cons, hp, ih]

variable {κ α : Type} [DecidableEq κ]

def get (m : HashMap κ α) (k : κ) : Option α :=
  (m.entries.find? fun e => e.1 = k).map Prod.snd

def empty : HashMap κ α := ⟨[], List.nodup_nil⟩

/-- Where the new entry stands in the iteration order is unspecified; it is put last. -/
def insert (m : HashMap κ α) (k : κ) (v : α) : HashMap κ α where
  entries := m.entries.filter (fun e => e.1 ≠ k) ++ [(k, v)]
  nodup_keys := by
    rw [List.map_append, List.nodup_append]
    refine ⟨m.nodup_keys.sublist ((List.filter_sublist _).map _), List.nodup_singleton _, ?_⟩
    simp [List.disjoint_singleton]

@[simp] theorem get_empty (k : κ) : (empty : HashMap κ α).get k = none := rfl

@[simp] theorem get_insert (m : HashMap κ α) (k k' : κ) (v : α) :
    (m.insert k v).get k' = if k' = k then some v else m.get k' := by
  unfold get insert
  split_ifs with h
  · subst h
    have hnone : (m.entries.filter fun e => e.1 ≠ k').find? (fun e => e.1 = k') = none :=
      List.find?_eq_none.2 fun e he => by simpa using (List.mem_filter.1 he).2
    simp [List.find?_append, hnone]
  · rw [List.find?_append, find?_filter_of_imp (fun e he => by simp_all) m.entries]
    cases m.entries.find? (fun e => e.1 = k') <;> simp [Ne.symm h]

theorem get_foldl_insert (m : HashMap κ α) {entries : List (κ × α)}
    (hnd : (entries.map Prod.fst).Nodup) (k : κ) :
    (entries.foldl (fun m e => m.insert e.1 e.2) m).get k =
      ((entries.find? fun e => e.1 = k).map Prod.snd).or (m.get k) := by
  induction entries generalizing m with
  | nil => rfl
  | cons e rest ih =>
    rw [List.map_cons, List.nodup_cons] at hnd
    rw [List.foldl_cons, ih _ hnd.2, get_insert, List.find?_cons]
    by_cases hk : e.1 = k
    · have hnone : rest.find? (fun e' => e'.1 = k) = none :=
        List.find?_eq_none.2 fun e' he' heq =>
          hnd.1 (hk ▸ of_decide_eq_true heq ▸ List.mem_map_of_mem Prod.fst he')
      simp [hk, hnone]
    · simp [hk, Ne.symm hk]

/-- `HashMap::extend`, and `Command::envs`: a later entry replaces an earlier one of its key. -/
def extend (m : HashMap κ α) (entries : List (κ × α)) : HashMap κ α :=
  entries.foldl (fun m e => m.insert e.1 e.2) m

def lastValue (entries : List (κ × α)) (k : κ) : Option α :=
  (entries.reverse.find? fun e => e.1 = k).map Prod.snd

theorem lastValue_append (xs ys : List (κ × α)) (k : κ) :
    lastValue (xs ++ ys) k = (lastValue ys k).or (lastValue xs k) := by
  unfold lastValue
  rw [List.reverse_append, List.find?_append]
  cases ys.reverse.find? (fun e => e.1 = k) <;> rfl

theorem get_extend (m : HashMap κ α) (entries : List (κ × α)) (k : κ) :
    (m.extend entries).get k = (lastValue entries k).or (m.get k) := by
  induction entries generalizing m with
  | nil => rfl
  | cons e rest ih =>
    rw [extend, List.foldl_cons, ← extend, ih, get_insert, ← List.singleton_append,
      lastValue_append, Option.or_assoc]
    by_cases hk : k = e.1
    · simp [lastValue, hk]
    · simp [lastValue, hk, Ne.symm hk]

end HashMap

inductive Error where
  | invalidColor (value : String)
  | other (message : String)
deriving DecidableEq, Repr

/-- A call of a Rust function returning `Result<α, Error>`: its value, its error, or a panic. -/
inductive Outcome (α : Type) where
  | ok (value : α)
  | err (error : Error)
  | panic
deriving DecidableEq, Repr

namespace Outcome

variable {α β : Type}

def bind : Outcome α → (α → Outcome β) → Outcome β
  | ok a, f => f a
  | err e, _ => err e
  | panic, _ => panic

instance : Monad Outcome where
  pure := ok
  bind := bind

@[simp] theorem ok_bind (a : α) (f : α → Outcome β) : (ok a >>= f) = f a := rfl

@[simp] theorem err_bind (e : Error) (f : α → Outcome β) : (err e >>= f) = err e := rfl

@[simp] theorem panic_bind (f : α → Outcome β) : (panic >>= f) = panic := rfl

@[simp] theorem pure_eq (a : α) : (pure a : Outcome α) = ok a := rfl

theorem bind_ne_panic {m : Outcome α} {f : α → Outcome β} (hm : m ≠ panic)
    (hf : ∀ a, f a ≠ panic) : (m >>= f) ≠ panic := by
  cases m with
  | ok a => exact hf a
  | err e => exact Outcome.noConfusion
  | panic => exact absurd rfl hm

/-- Panics where the option is `none`, as slicing at a bad offset does. -/
def ofPanicking : Option α → Outcome α
  | some a => ok a
  | none => panic

end Outcome

def usizeMax : Nat := 2 ^ 64 - 1

/-- `usize` addition with overflow checks: `none` is the panic. -/
def usizeCheckedAdd (a b : Nat) : Option Nat := if a + b ≤ usizeMax then some (a + b) else none

def usizeCheckedSub (a b : Nat) : Option Nat := if b ≤ a then some (a - b) else none

def lastSegment (s : String) : String :=
  ((s.data.splitOn '.').getLast?.map String.mk).getD s

@[simp] theorem String.empty_push (c : Char) : "".push c = c.toString := rfl

def popLast (s : String) : String := ⟨s.data.dropLast⟩

@[simp] theorem popLast_data (s : String) : (popLast s).data = s.data.dropLast := rfl

/-- `std::time::Instant`, in nanoseconds. -/
abbrev Instant := Nat

/-- `std::time::Duration`, in nanoseconds. -/
abbrev Duration := Nat

def Duration.fromMillis (ms : Nat) : Duration := ms * 1000000

/-- `Instant::elapsed` read at `now`; it saturates at zero. -/
def Instant.elapsed (start now : Instant) : Duration := now - start

@[simp] theorem Instant.elapsed_eq (start now : Instant) : Instant.elapsed start now = now - start :=
  rfl

structure TimeoutTracker where
  startedAt : Option Instant
  duration : Duration
deriving DecidableEq, Repr

namespace TimeoutTracker

def new (duration_ms : Nat) : TimeoutTracker := ⟨none, Duration.fromMillis duration_ms⟩

def start (t : TimeoutTracker) (now : Instant) : TimeoutTracker := { t with startedAt := some now }

def hasElapsed (t : TimeoutTracker) (now : Instant) : Bool :=
  (t.startedAt.map fun start => decide (t.duration ≤ Instant.elapsed start now)).getD false

@[simp] theorem hasElapsed_start (t : TimeoutTracker) (start now : Instant) :
    (t.start start).hasElapsed now = decide (t.duration ≤ now - start) := rfl

def isActive (t : TimeoutTracker) (now : Instant) : Bool := t.startedAt.isSome && !t.hasElapsed now

def remaining (t : TimeoutTracker) (now : Instant) : Option Duration :=
  t.startedAt.bind fun start =>
    let elapsed := Instant.elapsed start now
    if t.duration ≤ elapsed then none else some (t.duration - elapsed)

def deadline (t : TimeoutTracker) : Option Instant := t.startedAt.map (· + t.duration)

def setDuration (t : TimeoutTracker) (duration_ms : Nat) : TimeoutTracker :=
  { t with duration := Duration.fromMillis duration_ms }

end TimeoutTracker

end OpenSesame
