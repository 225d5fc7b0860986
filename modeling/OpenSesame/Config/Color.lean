import OpenSesame.Util.Str

/-!
# Colours

`config/schema.rs`: `Color::from_hex` slices the text after its `#`s at byte offsets and reads
each slice with `u8::from_str_radix`, which takes a pair such as `+f`; a slice inside a
multi-byte character panics.
-/

namespace OpenSesame

structure Color where
  r : UInt8
  g : UInt8
  b : UInt8
  a : UInt8
deriving DecidableEq, Repr

namespace Color

def new (r g b a : UInt8) : Color := ⟨r, g, b, a⟩

def default : Color := new 180 160 255 180

/-- `u8::from_str_radix(&s[start..start + 2], 16)`, its error `InvalidColor` of the text after the
`#`s. -/
def hexChannel (s : List Char) (start : Nat) : Outcome UInt8 := do
  let digits ← Outcome.ofPanicking (Str.sliceBytes s start (start + 2))
  match fromStrRadix 16 255 digits with
  | some v => pure (UInt8.ofNat v)
  | none => .err (.invalidColor ⟨s⟩)

def fromHex (s : String) : Outcome Color :=
  let s := s.data.dropWhile (· == '#')
  match String.utf8ByteSize ⟨s⟩ with
  | 6 => do
    let r ← hexChannel s 0
    let g ← hexChannel s 2
    let b ← hexChannel s 4
    pure ⟨r, g, b, 255⟩
  | 8 => do
    let r ← hexChannel s 0
    let g ← hexChannel s 2
    let b ← hexChannel s 4
    let a ← hexChannel s 6
    pure ⟨r, g, b, a⟩
  | _ => .err (.invalidColor ⟨s⟩)

theorem fromHex_ascii_ne_panic {s : String} (h : ∀ c ∈ s.data, c.toNat < 128) :
    fromHex s ≠ .panic := by
  have hd : ∀ c ∈ s.data.dropWhile (· == '#'), c.toNat < 128 := fun c hc =>
    h c ((List.dropWhile_suffix _).subset hc)
  have hch : ∀ k, k + 2 ≤ (s.data.dropWhile (· == '#')).length →
      hexChannel (s.data.dropWhile (· == '#')) k ≠ .panic := by
    intro k hk
    simp only [hexChannel, Str.sliceBytes_ascii hd (Nat.le_add_right k 2) hk, Outcome.ofPanicking,
      Outcome.ok_bind]
    split <;> exact Outcome.noConfusion
  simp only [fromHex, String.utf8ByteSize_of_ascii hd]
  split
  · exact Outcome.bind_ne_panic (hch 0 (by omega)) fun _ => Outcome.bind_ne_panic (hch 2 (by omega)) fun _ =>
      Outcome.bind_ne_panic (hch 4 (by omega)) fun _ => Outcome.noConfusion
  · exact Outcome.bind_ne_panic (hch 0 (by omega)) fun _ => Outcome.bind_ne_panic (hch 2 (by omega)) fun _ =>
      Outcome.bind_ne_panic (hch 4 (by omega)) fun _ => Outcome.bind_ne_panic (hch 6 (by omega)) fun _ =>
        Outcome.noConfusion
  · exact Outcome.noConfusion

theorem fromHex_ascii_ne_panic_plus_signs :
    (∀ c ∈ "#+f+f+f".data, c.toNat < 128) ∧ fromHex "#+f+f+f" ≠ .panic :=
  ⟨by decide, fromHex_ascii_ne_panic (by decide)⟩

/-- `from_str_radix` takes `+f` as 15, so `+f+f+f` is a colour; offset 2 of `aééb` falls inside `é`,
where slicing panics. -/
theorem fromHex_plus_sign_and_split_character :
    fromHex "+f+f+f" = .ok ⟨15, 15, 15, 255⟩ ∧ fromHex "aééb" = .panic := by
  decide

/-- `{:02x}` of a byte: its two lowercase hex digits, high first. -/
def hex02 (v : UInt8) : List Char := [Nat.digitChar (v.toNat / 16), Nat.digitChar (v.toNat % 16)]

/-- `format!("#{:02x}{:02x}{:02x}{:02x}", r, g, b, a)`, which `Serialize` writes. -/
def toHex (c : Color) : String := ⟨'#' :: (hex02 c.r ++ hex02 c.g ++ hex02 c.b ++ hex02 c.a)⟩

end Color

end OpenSesame
