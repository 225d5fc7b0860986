import OpenSesame.Util
import Mathlib.Data.List.Infix

/-!
# Rust string operations

The `str` methods the program calls, on characters. Offsets are UTF-8 byte offsets; a slice
inside a character panics, which `Str.sliceBytes` returns as `none`.
-/

namespace OpenSesame

namespace Str

/-- `none` when byte offset `n` falls inside a character or past the end. -/
def splitAtByte : List Char → Nat → Option (List Char × List Char)
  | cs, 0 => some ([], cs)
  | [], _ + 1 => none
  | c :: cs, n + 1 =>
    if c.utf8Size ≤ n + 1 then (splitAtByte cs (n + 1 - c.utf8Size)).map fun p => (c :: p.1, p.2)
    else none

/-- `&s[start..stop]`; `none` is its panic. -/
def sliceBytes (s : List Char) (start stop : Nat) : Option (List Char) := do
  guard (start ≤ stop)
  let (_, rest) ← splitAtByte s start
  let (mid, _) ← splitAtByte rest (stop - start)
  pure mid

/-- Unicode's `White_Space` property. -/
def isWhitespace (c : Char) : Bool :=
  let n := c.toNat
  (0x09 ≤ n && n ≤ 0x0d) || n == 0x20 || n == 0x85 || n == 0xa0 || n == 0x1680 ||
    (0x2000 ≤ n && n ≤ 0x200a) || n == 0x2028 || n == 0x2029 || n == 0x202f || n == 0x205f ||
    n == 0x3000

def trimStart (s : List Char) : List Char := s.dropWhile isWhitespace

def trimEnd (s : List Char) : List Char := (s.reverse.dropWhile isWhitespace).reverse

def trim (s : List Char) : List Char := trimEnd (trimStart s)

def stripPrefix (pre s : List Char) : Option (List Char) :=
  if pre.isPrefixOf s then some (s.drop pre.length) else none

def contains (s pat : List Char) : Bool := decide (pat <:+: s)

/-- `str::find`, then the text before and after the first occurrence of `pat`. -/
def splitAtFirst (pat : List Char) : List Char → Option (List Char × List Char)
  | [] => if pat = [] then some ([], []) else none
  | c :: s =>
    if pat.isPrefixOf (c :: s) then some ([], (c :: s).drop pat.length)
    else (splitAtFirst pat s).map fun p => (c :: p.1, p.2)

def beforeLast (c : Char) (s : List Char) : Option (List Char) :=
  (splitAtFirst [c] s.reverse).map fun p => p.2.reverse

/-- The scan of `str::replace`; `skip` counts the characters of the last replaced match still to
pass, so that matches never overlap. -/
def replaceFrom (pat rep : List Char) : Nat → List Char → List Char
  | _, [] => []
  | skip + 1, _ :: s => replaceFrom pat rep skip s
  | 0, c :: s =>
    if pat ≠ [] ∧ pat.isPrefixOf (c :: s) then rep ++ replaceFrom pat rep (pat.length - 1) s
    else c :: replaceFrom pat rep 0 s

/-- For the non-empty patterns the code replaces. -/
def replace (s pat rep : List Char) : List Char := replaceFrom pat rep 0 s

/-- One `\r` before a `\n` dropped, and no empty line after a final `\n`. -/
def lines (s : List Char) : List (List Char) :=
  let parts := s.splitOn '\n'
  let stripCr (l : List Char) := if l.getLast? = some '\r' then l.dropLast else l
  parts.dropLast.map stripCr ++ (match parts.getLast? with | some [] | none => [] | some l => [l])

def join (sep : List Char) (parts : List (List Char)) : List Char := sep.intercalate parts

section Lemmas

variable {c : Char} {s pat rep : List Char}

theorem trimStart_cons (hc : isWhitespace c = false) : trimStart (c :: s) = c :: s := by
  simp [trimStart, List.dropWhile_cons, hc]

theorem trimEnd_append_singleton (hc : isWhitespace c = false) :
    trimEnd (s ++ [c]) = s ++ [c] := by
  simp [trimEnd, List.dropWhile_cons, hc]

theorem trim_of_ends {d : Char} (hc : isWhitespace c = false) (hd : isWhitespace d = false) :
    trim (c :: s ++ [d]) = c :: s ++ [d] := by
  rw [trim, List.cons_append, trimStart_cons hc, ← List.cons_append, trimEnd_append_singleton hd]

theorem beforeLast_append_singleton : beforeLast c (s ++ [c]) = some s := by
  simp [beforeLast, splitAtFirst, List.isPrefixOf]

theorem trimEnd_append_of_isWhitespace (hc : isWhitespace c = true) :
    trimEnd (s ++ [c]) = trimEnd s := by
  simp [trimEnd, hc]

theorem isWhitespace_of_getLast?_trimEnd {d : Char} (h : (trimEnd s).getLast? = some d) :
    isWhitespace d = false := by
  have hd := List.head?_dropWhile_not isWhitespace s.reverse
  rw [trimEnd, List.getLast?_reverse] at h
  rw [h] at hd
  exact hd

theorem trimEnd_of_getLast? {d : Char} (h : s.getLast? = some d) (hd : isWhitespace d = false) :
    trimEnd s = s := by
  obtain ⟨init, rfl⟩ := List.getLast?_eq_some_iff.1 h
  exact trimEnd_append_singleton hd

theorem length_le_utf8ByteSize (l : List Char) : l.length ≤ String.utf8ByteSize ⟨l⟩ := by
  show l.length ≤ String.utf8ByteSize.go l
  induction l with
  | nil => simp [String.utf8ByteSize.go]
  | cons c l ih =>
    simp only [String.utf8ByteSize.go, List.length_cons]
    have := Char.utf8Size_pos c
    omega

theorem splitAtByte_ascii {l : List Char} (h : ∀ c ∈ l, c.toNat < 128) {n : Nat}
    (hn : n ≤ l.length) : splitAtByte l n = some (l.take n, l.drop n) := by
  induction l generalizing n with
  | nil => rw [Nat.eq_zero_of_le_zero hn]; rfl
  | cons c l ih =>
    simp only [List.forall_mem_cons] at h
    cases n with
    | zero => rfl
    | succ n =>
      rw [List.length_cons] at hn
      simp [splitAtByte, Char.utf8Size_of_ascii h.1, ih h.2 (show n ≤ l.length by omega)]

theorem sliceBytes_ascii {l : List Char} (h : ∀ c ∈ l, c.toNat < 128) {a b : Nat}
    (hab : a ≤ b) (hb : b ≤ l.length) : sliceBytes l a b = some ((l.drop a).take (b - a)) := by
  have hdrop : ∀ c ∈ l.drop a, c.toNat < 128 := fun c hc => h c (List.mem_of_mem_drop hc)
  simp [sliceBytes, hab, splitAtByte_ascii h (hab.trans hb),
    splitAtByte_ascii hdrop (show b - a ≤ (l.drop a).length by simp; omega)]

@[simp] theorem replaceFrom_nil (k : Nat) : replaceFrom pat rep k [] = [] := by
  cases k <;> rfl

theorem replaceFrom_cons_of_head (hc : pat.head? ≠ some c) :
    replaceFrom pat rep 0 (c :: s) = c :: replaceFrom pat rep 0 s := by
  rw [replaceFrom, if_neg]
  rintro ⟨hne, hpre⟩
  obtain ⟨p, ps, rfl⟩ := List.exists_cons_of_ne_nil hne
  simp only [List.isPrefixOf, Bool.and_eq_true, beq_iff_eq] at hpre
  exact hc (congrArg some hpre.1)

theorem replaceFrom_pair_match {a b : Char} :
    replaceFrom [a, b] rep 0 (a :: b :: s) = rep ++ replaceFrom [a, b] rep 0 s := by
  simp [replaceFrom, List.isPrefixOf]

theorem replaceFrom_pair_miss {a b : Char} (hc : c ≠ b) :
    replaceFrom [a, b] rep 0 (a :: c :: s) = a :: replaceFrom [a, b] rep 0 (c :: s) := by
  simp [replaceFrom, List.isPrefixOf, Ne.symm hc]

theorem replaceFrom_pair_last {a b : Char} : replaceFrom [a, b] rep 0 [a] = [a] := by
  simp [replaceFrom, List.isPrefixOf]

section Join

variable {x : Char}

theorem join_cons_cons {sep l l' : List Char} {ls : List (List Char)} :
    join sep (l :: l' :: ls) = l ++ sep ++ join sep (l' :: ls) := by
  simp [join, List.intercalate, List.intersperse]

theorem join_singleton {sep l : List Char} : join sep [l] = l := by
  simp [join, List.intercalate]

theorem mem_join {sep : List Char} :
    ∀ {parts : List (List Char)}, c ∈ join sep parts → c ∈ sep ∨ ∃ l ∈ parts, c ∈ l
  | [], h => by simp [join, List.intercalate] at h
  | [l], h => .inr ⟨l, List.mem_singleton_self l, by rwa [join_singleton] at h⟩
  | l :: l' :: ls, h => by
    rw [join_cons_cons, List.mem_append, List.mem_append] at h
    rcases h with (h | h) | h
    · exact .inr ⟨l, List.mem_cons_self _ _, h⟩
    · exact .inl h
    · exact (mem_join h).imp_right fun ⟨l, hl, hc⟩ => ⟨l, List.mem_cons_of_mem _ hl, hc⟩
theorem length_le_length_join {sep : List Char} (hsep : sep ≠ []) :
    ∀ parts : List (List Char), parts.length ≤ (join sep parts).length + 1
  | [] => by simp
  | [l] => by simp [join_singleton]
  | l :: l' :: ls => by
    have ih := length_le_length_join hsep (l' :: ls)
    have := List.length_pos.2 hsep
    simp only [join_cons_cons, List.length_append, List.length_cons] at ih ⊢
    omega

theorem prefix_of_prefix_append_cons {v : List Char} :
    ∀ {u pat : List Char}, pat <+: u ++ x :: v → x ∉ pat → pat <+: u
  | _, [], _, _ => List.nil_prefix
  | [], p :: ps, h, hx => by
    obtain ⟨rfl, -⟩ := List.cons_prefix_cons.1 h
    exact absurd (List.mem_cons_self _ _) hx
  | c :: u, p :: ps, h, hx => by
    obtain ⟨rfl, hps⟩ := List.cons_prefix_cons.1 h
    exact List.cons_prefix_cons.2 ⟨rfl, prefix_of_prefix_append_cons hps
      fun h' => hx (List.mem_cons_of_mem _ h')⟩

theorem infix_append_cons {pat v : List Char} (hx : x ∉ pat) :
    ∀ {u : List Char}, pat <:+: u ++ x :: v → pat <:+: u ∨ pat <:+: v
  | [], h => (List.infix_cons_iff.1 h).imp
      (fun hp => (prefix_of_prefix_append_cons (u := []) hp hx).isInfix) id
  | c :: u, h => (List.infix_cons_iff.1 h).elim
      (fun hp => .inl (prefix_of_prefix_append_cons (u := c :: u) hp hx).isInfix)
      fun hi => (infix_append_cons hx hi).imp_left List.infix_cons

theorem not_infix_join {pat : List Char} (hx : x ∉ pat) (hpat : pat ≠ []) :
    ∀ {parts : List (List Char)}, (∀ l ∈ parts, ¬ pat <:+: l) → ¬ pat <:+: join [x] parts
  | [], _, h => hpat (List.infix_nil.1 h)
  | [l], hl, h => hl l (List.mem_singleton_self l) (by simpa [join, List.intercalate] using h)
  | l :: l' :: ls, hl, h =>
    (infix_append_cons (u := l) (v := join [x] (l' :: ls)) hx h).elim
      (hl l (List.mem_cons_self _ _))
      (not_infix_join hx hpat fun l hm => hl l (List.mem_cons_of_mem _ hm))

theorem lines_join {parts : List (List Char)} (hne : parts ≠ [])
    (hnl : ∀ l ∈ parts, '\n' ∉ l) (hcr : ∀ l ∈ parts, l.getLast? ≠ some '\r')
    (hlast : parts.getLast? ≠ some []) : lines (join ['\n'] parts) = parts := by
  obtain ⟨init, last, rfl⟩ : ∃ init last, parts = init ++ [last] :=
    ⟨_, _, (List.dropLast_append_getLast hne).symm⟩
  have hlast' : last ≠ [] := fun h => hlast (by simp [h])
  simp only [lines, join, List.splitOn_intercalate _ _ hnl hne, List.dropLast_concat,
    List.getLast?_concat, hlast']
  rw [List.map_congr_left fun l hl => if_neg (hcr l (List.mem_append_left _ hl)), List.map_id']

end Join

end Lemmas

end Str

end OpenSesame
