/-!
# A reader for RON

The part of RON a shortcuts file uses, which is not from the source. Each reader returns the
value it read and the rest of the text.
-/

namespace OpenSesame

namespace Ron

/-- `tuple` is a parenthesised struct or variant: its name, empty for an anonymous struct, and its
fields, a positional one with an empty name. -/
inductive Value where
  | str (chars : List Char)
  | ident (name : List Char)
  | list (items : List Value)
  | map (entries : List (Value × Value))
  | tuple (name : List Char) (fields : List (List Char × Value))

def isWs (c : Char) : Bool := c = ' ' || c = '\t' || c = '\n' || c = '\r'

def skipWs (cs : List Char) : List Char := cs.dropWhile isWs

def escapeChar (c : Char) : Option Char :=
  if c = '\\' then some '\\' else if c = '"' then some '"' else if c = '\x27' then some c
  else if c = 'n' then some '\n' else if c = 't' then some '\t' else if c = 'r' then some '\r'
  else if c = '0' then some (Char.ofNat 0) else none

/-- A string's body after its opening quote, and the text after its closing quote. -/
def readString : List Char → Option (List Char × List Char)
  | [] => none
  | '"' :: rest => some ([], rest)
  | '\\' :: c :: rest =>
    (escapeChar c).bind fun e => (readString rest).map fun p => (e :: p.1, p.2)
  | c :: rest => if c = '\\' then none else (readString rest).map fun p => (c :: p.1, p.2)

def isIdentStart (c : Char) : Bool := c.isAlpha || c = '_'

def isIdentChar (c : Char) : Bool := c.isAlphanum || c = '_'

def isIdent : List Char → Bool
  | [] => false
  | c :: cs => isIdentStart c && cs.all isIdentChar

/-- Items separated by commas, a trailing comma allowed, up to `close`. -/
def readSeq {α : Type} (item : List Char → Option (α × List Char)) (close : Char) :
    Nat → List Char → Option (List α × List Char)
  | 0, _ => none
  | fuel + 1, cs =>
    match skipWs cs with
    | [] => none
    | c :: rest =>
      if c = close then some ([], rest)
      else (item (c :: rest)).bind fun p =>
        match skipWs p.2 with
        | ',' :: r => (readSeq item close fuel r).map fun q => (p.1 :: q.1, q.2)
        | d :: r => if d = close then some ([p.1], r) else none
        | [] => none

def readField (value : List Char → Option (Value × List Char)) (cs : List Char) :
    Option ((List Char × Value) × List Char) :=
  let cs := skipWs cs
  let name := cs.takeWhile isIdentChar
  match skipWs (cs.dropWhile isIdentChar) with
  | ':' :: r =>
    if name.head?.map isIdentStart = some true then (value r).map fun p => ((name, p.1), p.2)
    else none
  | _ => (value cs).map fun p => (([], p.1), p.2)

def readEntry (value : List Char → Option (Value × List Char)) (cs : List Char) :
    Option ((Value × Value) × List Char) :=
  (value cs).bind fun p =>
    match skipWs p.2 with
    | ':' :: r => (value r).map fun q => ((p.1, q.1), q.2)
    | _ => none

/-- `fuel` bounds the nesting. -/
def readValue : Nat → List Char → Option (Value × List Char)
  | 0, _ => none
  | fuel + 1, cs =>
    match skipWs cs with
    | '"' :: rest => (readString rest).map fun p => (.str p.1, p.2)
    | '[' :: rest => (readSeq (readValue fuel) ']' rest.length rest).map fun p => (.list p.1, p.2)
    | '{' :: rest =>
      (readSeq (readEntry (readValue fuel)) '}' rest.length rest).map fun p => (.map p.1, p.2)
    | '(' :: rest =>
      (readSeq (readField (readValue fuel)) ')' rest.length rest).map fun p => (.tuple [] p.1, p.2)
    | c :: rest =>
      if isIdentStart c then
        let name := (c :: rest).takeWhile isIdentChar
        let after := (c :: rest).dropWhile isIdentChar
        match skipWs after with
        | '(' :: r =>
          (readSeq (readField (readValue fuel)) ')' r.length r).map fun p => (.tuple name p.1, p.2)
        | _ => some (.ident name, after)
      else none
    | [] => none

def readDoc (content : List Char) : Option Value :=
  match readValue content.length content with
  | some (v, rest) => if skipWs rest = [] then some v else none
  | none => none

def isName : Value → Bool
  | .ident _ => true
  | _ => false

/-- `(modifiers: [names], key: "text")`. -/
def isBindingKey : Value → Bool
  | .tuple [] [(f₁, .list mods), (f₂, .str _)] =>
    f₁ == "modifiers".data && f₂ == "key".data && mods.all isName
  | _ => false

/-- A well-formed shortcuts file: one map whose keys are bindings. -/
def isBindingMap (content : List Char) : Bool :=
  match readDoc content with
  | some (.map entries) => entries.all fun e => isBindingKey e.1
  | _ => false

def isMap (content : List Char) : Bool :=
  match readDoc content with
  | some (.map _) => true
  | _ => false

section Reader

variable {n f : Nat} {cs r rest : List Char}

theorem skipWs_cons_of_isWs {c : Char} (h : isWs c = true) : skipWs (c :: cs) = skipWs cs := by
  simp [skipWs, List.dropWhile_cons, h]

theorem skipWs_cons {c : Char} (h : isWs c = false) : skipWs (c :: cs) = c :: cs := by
  simp [skipWs, List.dropWhile_cons, h]

theorem readValue_str {s : List Char} (hcs : skipWs cs = '"' :: r)
    (hs : readString r = some (s, rest)) : readValue (n + 1) cs = some (.str s, rest) := by
  simp [readValue, hcs, hs]

theorem readValue_list {vs : List Value} (hcs : skipWs cs = '[' :: r)
    (hs : readSeq (readValue n) ']' r.length r = some (vs, rest)) :
    readValue (n + 1) cs = some (.list vs, rest) := by
  simp [readValue, hcs, hs]

theorem readValue_map {es : List (Value × Value)} (hcs : skipWs cs = '{' :: r)
    (hs : readSeq (readEntry (readValue n)) '}' r.length r = some (es, rest)) :
    readValue (n + 1) cs = some (.map es, rest) := by
  simp [readValue, hcs, hs]

theorem readValue_struct {fs : List (List Char × Value)} (hcs : skipWs cs = '(' :: r)
    (hs : readSeq (readField (readValue n)) ')' r.length r = some (fs, rest)) :
    readValue (n + 1) cs = some (.tuple [] fs, rest) := by
  simp [readValue, hcs, hs]

theorem readValue_of_isIdentStart {c : Char} {t : List Char} (hcs : skipWs cs = c :: t)
    (hc : isIdentStart c = true) :
    readValue (n + 1) cs =
      match skipWs ((c :: t).dropWhile isIdentChar) with
      | '(' :: r => (readSeq (readField (readValue n)) ')' r.length r).map fun p =>
          (.tuple ((c :: t).takeWhile isIdentChar) p.1, p.2)
      | _ => some (.ident ((c :: t).takeWhile isIdentChar), (c :: t).dropWhile isIdentChar) := by
  rw [readValue, hcs]
  split
  case h_5 heq =>
    obtain ⟨rfl, rfl⟩ := List.cons.inj heq
    exact if_pos hc
  all_goals simp_all [isIdentStart]

theorem isWs_false_of_isIdentStart {c : Char} (h : isIdentStart c = true) : isWs c = false := by
  cases hw : isWs c
  · rfl
  · simp only [isWs, Bool.or_eq_true, decide_eq_true_eq] at hw
    rcases hw with ((rfl | rfl) | rfl) | rfl <;> exact absurd h (by decide)

theorem isIdentChar_of_isIdentStart {c : Char} (h : isIdentStart c = true) :
    isIdentChar c = true := by
  simp only [isIdentStart, isIdentChar, Char.isAlphanum, Bool.or_eq_true] at h ⊢
  exact h.imp_left .inl

theorem isIdentChar_of_mem_isIdent {m : List Char} (hm : isIdent m = true) {c : Char}
    (hc : c ∈ m) : isIdentChar c = true := by
  obtain _ | ⟨d, t⟩ := m
  · cases hm
  simp only [isIdent, Bool.and_eq_true, List.all_eq_true] at hm
  rcases List.mem_cons.1 hc with rfl | hc
  · exact isIdentChar_of_isIdentStart hm.1
  · exact hm.2 c hc

theorem isIdentStart_of_isIdent {c : Char} {t : List Char} (h : isIdent (c :: t) = true) :
    isIdentStart c = true := by
  simp only [isIdent, Bool.and_eq_true] at h
  exact h.1

theorem skipWs_of_isIdentStart {c : Char} (h : isIdentStart c = true) :
    skipWs (c :: cs) = c :: cs :=
  skipWs_cons (isWs_false_of_isIdentStart h)

theorem span_ident {name : List Char} (hname : isIdent name = true)
    (hrest : ∀ c ∈ rest.head?, isIdentChar c = false) :
    (name ++ rest).takeWhile isIdentChar = name ∧ (name ++ rest).dropWhile isIdentChar = rest := by
  obtain _ | ⟨c, t⟩ := name
  · cases hname
  simp only [isIdent, Bool.and_eq_true, List.all_eq_true] at hname
  have hall : ∀ d ∈ c :: t, isIdentChar d = true := by
    simpa using ⟨isIdentChar_of_isIdentStart hname.1, hname.2⟩
  rw [List.takeWhile_append_of_pos hall, List.dropWhile_append_of_pos hall]
  cases rest with
  | nil => simp
  | cons d rest =>
    have hd : isIdentChar d = false := hrest d rfl
    simp [List.takeWhile_cons, List.dropWhile_cons, hd]

theorem skipWs_ne_of_head {c d : Char} (hc : isWs c = false) (hcd : c ≠ d) :
    ∀ r, skipWs (c :: cs) ≠ d :: r := by
  intro r h
  rw [skipWs_cons hc] at h
  exact hcd (List.cons.inj h).1

theorem head_not_isIdentChar {d : Char} (hd : isIdentChar d = false) :
    ∀ c ∈ (d :: cs).head?, isIdentChar c = false := by
  rintro c ⟨⟩
  exact hd

theorem readValue_of_isIdent {name : List Char} (hcs : skipWs cs = name ++ rest)
    (hname : isIdent name = true) (hrest : ∀ c ∈ rest.head?, isIdentChar c = false) :
    readValue (n + 1) cs =
      match skipWs rest with
      | '(' :: r => (readSeq (readField (readValue n)) ')' r.length r).map fun p =>
          (.tuple name p.1, p.2)
      | _ => some (.ident name, rest) := by
  obtain _ | ⟨c, t⟩ := name
  · cases hname
  obtain ⟨htake, hdrop⟩ := span_ident hname hrest
  rw [List.cons_append] at hcs htake hdrop
  rw [readValue_of_isIdentStart hcs (isIdentStart_of_isIdent hname), hdrop, htake]

theorem readValue_ident {name : List Char} (hcs : skipWs cs = name ++ rest)
    (hname : isIdent name = true) (hrest : ∀ c ∈ rest.head?, isIdentChar c = false)
    (hparen : ∀ r, skipWs rest ≠ '(' :: r) : readValue (n + 1) cs = some (.ident name, rest) := by
  rw [readValue_of_isIdent hcs hname hrest]
  split
  · exact absurd ‹_› (hparen _)
  · rfl

theorem readValue_named {name : List Char} {fs : List (List Char × Value)} {rest' : List Char}
    (hcs : skipWs cs = name ++ rest) (hname : isIdent name = true)
    (hrest : ∀ c ∈ rest.head?, isIdentChar c = false) (hparen : skipWs rest = '(' :: r)
    (hs : readSeq (readField (readValue n)) ')' r.length r = some (fs, rest')) :
    readValue (n + 1) cs = some (.tuple name fs, rest') := by
  rw [readValue_of_isIdent hcs hname hrest, hparen]
  simp [hs]

theorem readField_named {value : List Char → Option (Value × List Char)} {name : List Char}
    {v : Value} {rest' : List Char} (hcs : skipWs cs = name ++ rest) (hname : isIdent name = true)
    (hrest : ∀ c ∈ rest.head?, isIdentChar c = false) (hcolon : skipWs rest = ':' :: r)
    (hv : value r = some (v, rest')) : readField value cs = some ((name, v), rest') := by
  obtain _ | ⟨c, t⟩ := name
  · cases hname
  obtain ⟨htake, hdrop⟩ := span_ident hname hrest
  rw [List.cons_append] at hcs htake hdrop
  simp [readField, hcs, htake, hdrop, hcolon, isIdentStart_of_isIdent hname, hv]

theorem readField_positional {value : List Char → Option (Value × List Char)} {c : Char}
    {v : Value} (hcs : skipWs cs = c :: r) (hc : isIdentChar c = false) (hcolon : c ≠ ':')
    (hws : isWs c = false) (hv : value (c :: r) = some (v, rest)) :
    readField value cs = some (([], v), rest) := by
  have hskip : skipWs (c :: r) = c :: r := skipWs_cons hws
  simp only [readField, hcs, List.takeWhile_cons, List.dropWhile_cons, hc, hskip]
  split
  · simp_all
  · simp [hv]

theorem readEntry_eq {value : List Char → Option (Value × List Char)} {k v : Value}
    {r' rest : List Char} (hk : value cs = some (k, r)) (hcolon : skipWs r = ':' :: r')
    (hv : value r' = some (v, rest)) : readEntry value cs = some ((k, v), rest) := by
  simp [readEntry, hk, hcolon, hv]

theorem skipWs_skipWs : skipWs (skipWs cs) = skipWs cs := by
  induction cs with
  | nil => rfl
  | cons c cs ih =>
    cases hc : isWs c
    · rw [skipWs_cons hc, skipWs_cons hc]
    · rw [skipWs_cons_of_isWs hc, ih]

theorem readValue_skipWs : readValue n (skipWs cs) = readValue n cs := by
  cases n <;> simp only [readValue, skipWs_skipWs]

theorem readEntry_skipWs : readEntry (readValue n) (skipWs cs) = readEntry (readValue n) cs := by
  simp only [readEntry, readValue_skipWs]

theorem readDoc_eq {content : List Char} {v : Value}
    (h : readValue content.length content = some (v, r)) (hr : skipWs r = []) :
    readDoc content = some v := by
  simp [readDoc, h, hr]

section Seq

variable {α : Type} {item : List Char → Option (α × List Char)} {close c : Char} {t : List Char}
  {a : α}

theorem readSeq_close (hcs : skipWs cs = close :: r) :
    readSeq item close (f + 1) cs = some ([], r) := by
  simp [readSeq, hcs]

theorem readSeq_cons {r' : List Char} (hcs : skipWs cs = c :: t) (hc : c ≠ close)
    (hi : item (c :: t) = some (a, r)) (hcomma : skipWs r = ',' :: r') :
    readSeq item close (f + 1) cs = (readSeq item close f r').map fun q => (a :: q.1, q.2) := by
  simp [readSeq, hcs, hc, hi, hcomma]

theorem readSeq_last {r' : List Char} (hcs : skipWs cs = c :: t) (hc : c ≠ close)
    (hi : item (c :: t) = some (a, r)) (hclose : skipWs r = close :: r') (hne : close ≠ ',') :
    readSeq item close (f + 1) cs = some ([a], r') := by
  simp only [readSeq, hcs, if_neg hc, hi, Option.some_bind, hclose]
  split <;> simp_all

theorem readSeq_skipWs : readSeq item close f (skipWs cs) = readSeq item close f cs := by
  cases f <;> simp only [readSeq, skipWs_skipWs]

theorem readSeq_cons_of_isWs (hc : isWs c = true) :
    readSeq item close f (c :: cs) = readSeq item close f cs := by
  rw [← readSeq_skipWs, skipWs_cons_of_isWs hc, readSeq_skipWs]

end Seq

end Reader

end Ron

end OpenSesame
