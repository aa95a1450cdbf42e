/-
  Xlurm.Json.Text

  JSON values, the compact text of a value, and a parser for compact texts.

  Integers are kept apart from other numbers; entries of an object keep their
  order and may repeat a key, as in a text.  `Native d` values have at most `d`
  levels of nesting and integers that fit 64 bits: every JSON library reads
  back what it prints of them.
-/

import Mathlib.Algebra.Group.Int.Defs
import Mathlib.Algebra.Group.Nat.Defs

inductive Json
  | null
  | bool (b : Bool)
  | num (n : Int)
  /-- A number with a fraction or an exponent, as it is written. -/
  | float (literal : String)
  | str (s : String)
  | arr (items : List Json)
  | obj (entries : List (String × Json))

namespace Json

/-- At most `d` levels deep, with integers of at most 64 bits. -/
inductive Native : Nat → Json → Prop
  | null (d : Nat) : Native d null
  | bool (d : Nat) (b : Bool) : Native d (bool b)
  | num (d : Nat) {n : Int} (lower : -2 ^ 63 ≤ n) (upper : n < 2 ^ 64) : Native d (num n)
  | str (d : Nat) (s : String) : Native d (str s)
  | arr (d : Nat) {items : List Json} (items_native : ∀ j ∈ items, Native d j) :
      Native (d + 1) (arr items)
  | obj (d : Nat) {entries : List (String × Json)}
      (entries_native : ∀ entry ∈ entries, Native d entry.2) : Native (d + 1) (obj entries)

theorem Native.mono {d d' : Nat} {j : Json} (h : Native d j) (hle : d ≤ d') : Native d' j := by
  induction h generalizing d' with
  | null => exact Native.null d'
  | bool _ b => exact Native.bool d' b
  | num _ lower upper => exact Native.num d' lower upper
  | str _ s => exact Native.str d' s
  | arr d _ ih =>
      obtain ⟨k, rfl⟩ : ∃ k, d' = k + 1 := ⟨d' - 1, by omega⟩
      exact Native.arr k fun j hj => ih j hj (by omega)
  | obj d _ ih =>
      obtain ⟨k, rfl⟩ : ∃ k, d' = k + 1 := ⟨d' - 1, by omega⟩
      exact Native.obj k fun entry hentry => ih entry hentry (by omega)

/-! ## Printing -/

/-- The characters that have an escape of their own, each with its letter. -/
def escapes : List (Char × Char) :=
  [('"', '"'), ('\\', '\\'), ('\n', 'n'), ('\r', 'r'), ('\t', 't'), (Char.ofNat 8, 'b'),
    (Char.ofNat 12, 'f')]

/-- A character in a string; the other control characters are written in hexadecimal. -/
def escape (c : Char) : List Char :=
  match escapes.find? (·.1 == c) with
  | some (_, letter) => ['\\', letter]
  | none =>
      if c.toNat < 32 then
        ['\\', 'u', '0', '0', Nat.digitChar (c.toNat / 16), Nat.digitChar (c.toNat % 16)]
      else [c]

def quoted (s : String) : List Char := '"' :: s.toList.flatMap escape ++ ['"']

def intText : Int → List Char
  | .ofNat n => Nat.toDigits 10 n
  | .negSucc n => '-' :: Nat.toDigits 10 (n + 1)

mutual

/-- The text without any white space. -/
def compact : Json → List Char
  | null => ['n', 'u', 'l', 'l']
  | bool true => ['t', 'r', 'u', 'e']
  | bool false => ['f', 'a', 'l', 's', 'e']
  | num n => intText n
  | float literal => literal.toList
  | str s => quoted s
  | arr [] => ['[', ']']
  | arr (j :: rest) => '[' :: (compact j ++ compactItems rest)
  | obj [] => ['{', '}']
  | obj ((key, j) :: rest) => '{' :: (quoted key ++ ':' :: (compact j ++ compactEntries rest))

/-- The items after the first, and the closing bracket. -/
def compactItems : List Json → List Char
  | [] => [']']
  | j :: rest => ',' :: (compact j ++ compactItems rest)

def compactEntries : List (String × Json) → List Char
  | [] => ['}']
  | (key, j) :: rest => ',' :: (quoted key ++ ':' :: (compact j ++ compactEntries rest))

end

/-! ## Parsing -/

def hexValue (c : Char) : Option Nat :=
  (List.range 16).find? fun n => Nat.digitChar n == c

/-- What follows a backslash. -/
def unescape : List Char → Option (Char × List Char)
  | 'u' :: '0' :: '0' :: a :: b :: rest =>
      match hexValue a, hexValue b with
      | some high, some low => some (Char.ofNat (16 * high + low), rest)
      | _, _ => none
  | letter :: rest => (escapes.find? (·.2 == letter)).map fun entry => (entry.1, rest)
  | [] => none

/-- A character of a string that starts with `c`, and what follows it. -/
def readChar (c : Char) (rest : List Char) : Option (Char × List Char) :=
  if c = '\\' then unescape rest else some (c, rest)

/-- The rest of a string: its characters, and what follows the closing quote. -/
def parseString : Nat → List Char → Option (List Char × List Char)
  | 0, _ | _ + 1, [] => none
  | fuel + 1, c :: rest =>
      if c = '"' then some ([], rest)
      else do
        let (c, rest) ← readChar c rest
        let (cs, rest) ← parseString fuel rest
        return (c :: cs, rest)

def parseDigits (cs : List Char) : Option (Nat × List Char) :=
  match cs.takeWhile Char.isDigit with
  | [] => none
  | digits => some (Nat.ofDigitChars 10 digits 0, cs.dropWhile Char.isDigit)

def parseInt : List Char → Option (Int × List Char)
  | [] => none
  | c :: rest =>
      if c = '-' then (parseDigits rest).map fun (n, rest) => (-n, rest)
      else (parseDigits (c :: rest)).map fun (n, rest) => (n, rest)

/-- Expect these characters. -/
def expect : List Char → List Char → Option (List Char)
  | [], cs => some cs
  | _ :: _, [] => none
  | e :: expected, c :: cs => if c = e then expect expected cs else none

def parseKey (fuel : Nat) (cs : List Char) : Option (String × List Char) := do
  let cs ← expect ['"'] cs
  let (key, cs) ← parseString fuel cs
  let cs ← expect [':'] cs
  return (String.ofList key, cs)

mutual

/-- A value, and what follows it. -/
def parseValue : Nat → List Char → Option (Json × List Char)
  | 0, _ | _ + 1, [] => none
  | fuel + 1, c :: rest =>
      if c = 'n' then (expect ['u', 'l', 'l'] rest).map fun rest => (null, rest)
      else if c = 't' then (expect ['r', 'u', 'e'] rest).map fun rest => (bool true, rest)
      else if c = 'f' then (expect ['a', 'l', 's', 'e'] rest).map fun rest => (bool false, rest)
      else if c = '"' then
        (parseString fuel rest).map fun (cs, rest) => (str (String.ofList cs), rest)
      else if c = '[' then
        match expect [']'] rest with
        | some rest => some (arr [], rest)
        | none => do
            let (j, rest) ← parseValue fuel rest
            let (items, rest) ← parseItems fuel rest
            return (arr (j :: items), rest)
      else if c = '{' then
        match expect ['}'] rest with
        | some rest => some (obj [], rest)
        | none => do
            let (key, rest) ← parseKey fuel rest
            let (j, rest) ← parseValue fuel rest
            let (entries, rest) ← parseEntries fuel rest
            return (obj ((key, j) :: entries), rest)
      else (parseInt (c :: rest)).map fun (n, rest) => (num n, rest)

def parseItems : Nat → List Char → Option (List Json × List Char)
  | 0, _ | _ + 1, [] => none
  | fuel + 1, c :: rest =>
      if c = ']' then some ([], rest)
      else if c = ',' then do
        let (j, rest) ← parseValue fuel rest
        let (items, rest) ← parseItems fuel rest
        return (j :: items, rest)
      else none

def parseEntries : Nat → List Char → Option (List (String × Json) × List Char)
  | 0, _ | _ + 1, [] => none
  | fuel + 1, c :: rest =>
      if c = '}' then some ([], rest)
      else if c = ',' then do
        let (key, rest) ← parseKey fuel rest
        let (j, rest) ← parseValue fuel rest
        let (entries, rest) ← parseEntries fuel rest
        return ((key, j) :: entries, rest)
      else none

end

/-! ## Reading back strings -/

theorem escapes_letters : ∀ entry ∈ escapes,
    entry.2 ≠ 'u' ∧ escapes.find? (·.2 == entry.2) = some entry := by
  decide

theorem hexValue_digitChar : ∀ n < 16, hexValue (Nat.digitChar n) = some n := by decide

/-- A character is read back from its escape, which does not start with a quote. -/
theorem escape_eq (c : Char) (rest : List Char) :
    ∃ first tail, escape c = first :: tail ∧ first ≠ '"' ∧
      readChar first (tail ++ rest) = some (c, rest) := by
  rw [escape]
  cases hfind : escapes.find? (·.1 == c) with
  | some entry =>
      obtain ⟨raw, letter⟩ := entry
      have hraw := List.find?_some hfind
      obtain rfl : raw = c := eq_of_beq hraw
      obtain ⟨hu, hletter⟩ := escapes_letters _ (List.mem_of_find?_eq_some hfind)
      refine ⟨'\\', [letter], rfl, by decide, ?_⟩
      rw [readChar, if_pos rfl]
      show unescape (letter :: rest) = some (raw, rest)
      unfold unescape
      split
      · rename_i heq
        exact absurd (List.cons.inj heq).1 hu
      · rename_i heq
        obtain ⟨rfl, rfl⟩ := List.cons.inj heq
        rw [hletter]
        rfl
      · rename_i heq
        cases heq
  | none =>
      have hraw : ∀ entry ∈ escapes, entry.1 ≠ c := by
        intro entry hentry heq
        exact List.find?_eq_none.mp hfind entry hentry (beq_iff_eq.mpr heq)
      dsimp only
      split
      · rename_i hlow
        refine ⟨'\\', _, rfl, by decide, ?_⟩
        rw [readChar, if_pos rfl]
        show unescape ('u' :: '0' :: '0' :: _ :: _ :: rest) = some (c, rest)
        rw [unescape, hexValue_digitChar _ (by omega), hexValue_digitChar _ (by omega)]
        have heq : 16 * (c.toNat / 16) + c.toNat % 16 = c.toNat := by omega
        simp only [heq, Char.ofNat_toNat]
      · refine ⟨c, [], rfl, ?_, ?_⟩
        · exact (hraw ('"', '"') (by decide)).symm
        · rw [readChar, if_neg (hraw ('\\', '\\') (by decide)).symm]
          rfl

theorem parseString_escaped (cs rest : List Char) (fuel : Nat) (hfuel : cs.length < fuel) :
    parseString fuel (cs.flatMap escape ++ '"' :: rest) = some (cs, rest) := by
  induction cs generalizing fuel with
  | nil =>
      obtain ⟨fuel, rfl⟩ : ∃ k, fuel = k + 1 := ⟨fuel - 1, by simp at hfuel; omega⟩
      rw [List.flatMap_nil, List.nil_append, parseString, if_pos rfl]
  | cons c cs ih =>
      obtain ⟨fuel, rfl⟩ : ∃ k, fuel = k + 1 := ⟨fuel - 1, by simp at hfuel; omega⟩
      obtain ⟨first, tail, hescape, hquote, hread⟩ :=
        escape_eq c (cs.flatMap escape ++ '"' :: rest)
      have hrest := ih fuel (by simp at hfuel; omega)
      rw [List.flatMap_cons, hescape, List.cons_append, List.cons_append, List.append_assoc,
        parseString, if_neg hquote, hread]
      show (parseString fuel _).bind _ = _
      rw [hrest]
      rfl

theorem length_le_flatMap_escape (cs : List Char) : cs.length ≤ (cs.flatMap escape).length := by
  induction cs with
  | nil => exact Nat.zero_le _
  | cons c cs ih =>
      obtain ⟨first, tail, hescape, _⟩ := escape_eq c []
      rw [List.flatMap_cons, hescape, List.length_append, List.length_cons, List.length_cons]
      omega

/-! ## Reading back numbers -/

/-- What follows a number: no digit. -/
def Ends (rest : List Char) : Prop := ∀ c ∈ rest.head?, c.isDigit = false

theorem parseDigits_toDigits (n : Nat) {rest : List Char} (hrest : Ends rest) :
    parseDigits (Nat.toDigits 10 n ++ rest) = some (n, rest) := by
  have hdigits : ∀ c ∈ Nat.toDigits 10 n, c.isDigit = true :=
    fun c hc => Nat.isDigit_of_mem_toDigits (by decide) (by decide) hc
  have htake : rest.takeWhile Char.isDigit = [] ∧ rest.dropWhile Char.isDigit = rest := by
    cases rest with
    | nil => exact ⟨rfl, rfl⟩
    | cons c rest =>
        have hc : c.isDigit = false := hrest c rfl
        simp [hc]
  rw [parseDigits, List.takeWhile_append_of_pos hdigits, List.dropWhile_append_of_pos hdigits,
    htake.1, htake.2, List.append_nil]
  cases heq : Nat.toDigits 10 n with
  | nil => exact absurd heq Nat.toDigits_ne_nil
  | cons c cs =>
      dsimp only
      rw [← heq, Nat.ofDigitChars_ten_toDigits]

theorem parseInt_intText (n : Int) {rest : List Char} (hrest : Ends rest) :
    parseInt (intText n ++ rest) = some (n, rest) := by
  cases n with
  | ofNat n =>
      show parseInt (Nat.toDigits 10 n ++ rest) = _
      cases heq : Nat.toDigits 10 n with
      | nil => exact absurd heq Nat.toDigits_ne_nil
      | cons c cs =>
          have hc : c.isDigit = true :=
            Nat.isDigit_of_mem_toDigits (by decide) (by decide) (heq ▸ List.mem_cons_self)
          have hminus : c ≠ '-' := by
            rintro rfl
            exact absurd hc (by decide)
          rw [List.cons_append, parseInt, if_neg hminus, ← List.cons_append, ← heq,
            parseDigits_toDigits n hrest]
          rfl
  | negSucc n =>
      show parseInt ('-' :: (Nat.toDigits 10 (n + 1) ++ rest)) = _
      rw [parseInt, if_pos rfl, parseDigits_toDigits (n + 1) hrest]
      rfl

/-! ## Reading back values -/

theorem expect_append (expected rest : List Char) : expect expected (expected ++ rest) = some rest := by
  induction expected with
  | nil => rfl
  | cons e expected ih => rw [List.cons_append, expect, if_pos rfl, ih]

theorem expect_of_ne {e c : Char} (hne : c ≠ e) (rest : List Char) : expect [e] (c :: rest) = none := by
  rw [expect, if_neg hne]

theorem length_quoted (s : String) : s.toList.length + 2 ≤ (quoted s).length := by
  have hle := length_le_flatMap_escape s.toList
  simp only [quoted, List.length_cons, List.length_append, List.length_nil]
  omega

theorem parseString_quoted (s : String) (rest : List Char) (fuel : Nat)
    (hfuel : (quoted s).length ≤ fuel + 1) :
    parseString fuel (s.toList.flatMap escape ++ '"' :: rest) = some (s.toList, rest) := by
  have hle := length_quoted s
  exact parseString_escaped s.toList rest fuel (by omega)

theorem parseKey_quoted (key : String) (rest : List Char) (fuel : Nat)
    (hfuel : (quoted key).length ≤ fuel) :
    parseKey fuel (quoted key ++ ':' :: rest) = some (key, rest) := by
  have hcs : quoted key ++ ':' :: rest =
      ['"'] ++ (key.toList.flatMap escape ++ '"' :: ([':'] ++ rest)) := by
    simp [quoted]
  rw [hcs, parseKey, expect_append]
  show (parseString fuel _).bind _ = _
  rw [parseString_quoted key _ fuel (by omega), Option.bind_some]
  show (expect [':'] ([':'] ++ rest)).bind _ = _
  rw [expect_append]
  simp

theorem intText_cons (n : Int) : ∃ c cs, intText n = c :: cs ∧ (c = '-' ∨ c.isDigit = true) := by
  cases n with
  | ofNat n =>
      cases heq : Nat.toDigits 10 n with
      | nil => exact absurd heq Nat.toDigits_ne_nil
      | cons c cs =>
          exact ⟨c, cs, heq, Or.inr (Nat.isDigit_of_mem_toDigits (by decide) (by decide)
            (heq ▸ List.mem_cons_self))⟩
  | negSucc n => exact ⟨'-', _, rfl, Or.inl rfl⟩

/-- Only a number starts with a digit or a sign. -/
theorem compact_cons {d : Nat} {j : Json} (h : Native d j) :
    ∃ c cs, compact j = c :: cs ∧ c ≠ ']' ∧ c ≠ '}' := by
  cases h with
  | null => exact ⟨'n', _, rfl, by decide, by decide⟩
  | bool _ b => cases b <;> exact ⟨_, _, rfl, by decide, by decide⟩
  | @num _ n =>
      obtain ⟨c, cs, heq, hc⟩ := intText_cons n
      refine ⟨c, cs, heq, ?_, ?_⟩
      · rintro rfl
        exact absurd hc (by decide)
      · rintro rfl
        exact absurd hc (by decide)
  | str => exact ⟨'"', _, rfl, by decide, by decide⟩
  | @arr _ items => cases items <;> exact ⟨'[', _, rfl, by decide, by decide⟩
  | @obj _ entries => cases entries <;> exact ⟨'{', _, rfl, by decide, by decide⟩

/-- `j` is read back, whatever follows its text. -/
def ReadBack (j : Json) : Prop :=
  ∀ rest fuel, Ends rest → (compact j).length ≤ fuel →
    parseValue fuel (compact j ++ rest) = some (j, rest)

theorem ends_compactItems (items : List Json) (rest : List Char) :
    Ends (compactItems items ++ rest) := by
  intro c hc
  cases items <;> (cases hc; decide)

theorem ends_compactEntries (entries : List (String × Json)) (rest : List Char) :
    Ends (compactEntries entries ++ rest) := by
  intro c hc
  rcases entries with _ | ⟨⟨key, j⟩, entries⟩ <;> (cases hc; decide)

theorem parseItems_compactItems {items : List Json} (h : ∀ j ∈ items, ReadBack j)
    (rest : List Char) (fuel : Nat) (hfuel : (compactItems items).length ≤ fuel) :
    parseItems fuel (compactItems items ++ rest) = some (items, rest) := by
  induction items generalizing fuel with
  | nil =>
      obtain ⟨fuel, rfl⟩ : ∃ k, fuel = k + 1 := ⟨fuel - 1, by simp [compactItems] at hfuel; omega⟩
      rfl
  | cons j items ih =>
      simp only [compactItems, List.length_cons, List.length_append] at hfuel
      obtain ⟨fuel, rfl⟩ : ∃ k, fuel = k + 1 := ⟨fuel - 1, by omega⟩
      have hj := h j List.mem_cons_self (compactItems items ++ rest) fuel
        (ends_compactItems items rest) (by omega)
      have hitems := ih (fun j hj => h j (List.mem_cons_of_mem _ hj)) fuel (by omega)
      rw [compactItems, List.cons_append, List.append_assoc, parseItems, if_neg (by decide),
        if_pos rfl, hj]
      show (parseItems fuel _).bind _ = _
      rw [hitems]
      rfl

theorem parseEntries_compactEntries {entries : List (String × Json)}
    (h : ∀ entry ∈ entries, ReadBack entry.2) (rest : List Char) (fuel : Nat)
    (hfuel : (compactEntries entries).length ≤ fuel) :
    parseEntries fuel (compactEntries entries ++ rest) = some (entries, rest) := by
  induction entries generalizing fuel with
  | nil =>
      obtain ⟨fuel, rfl⟩ : ∃ k, fuel = k + 1 :=
        ⟨fuel - 1, by simp [compactEntries] at hfuel; omega⟩
      rfl
  | cons entry entries ih =>
      obtain ⟨key, j⟩ := entry
      simp only [compactEntries, List.length_cons, List.length_append] at hfuel
      obtain ⟨fuel, rfl⟩ : ∃ k, fuel = k + 1 := ⟨fuel - 1, by omega⟩
      have hkey := parseKey_quoted key (compact j ++ (compactEntries entries ++ rest)) fuel (by omega)
      have hread : ReadBack j := h (key, j) List.mem_cons_self
      have hj := hread (compactEntries entries ++ rest) fuel (ends_compactEntries entries rest)
        (by omega)
      have hentries := ih (fun entry hentry => h entry (List.mem_cons_of_mem _ hentry)) fuel (by omega)
      rw [compactEntries, List.cons_append, List.append_assoc, List.cons_append, List.append_assoc,
        parseEntries, if_neg (by decide), if_pos rfl, hkey]
      show (parseValue fuel _).bind _ = _
      rw [hj]
      show (parseEntries fuel _).bind _ = _
      rw [hentries]
      rfl

/-- The first character of a value decides how it is read. -/
theorem parseValue_int {c : Char} (cs : List Char) (fuel : Nat) (hc : c = '-' ∨ c.isDigit = true) :
    parseValue (fuel + 1) (c :: cs) = (parseInt (c :: cs)).map fun (n, rest) => (num n, rest) := by
  have hne : ∀ other : Char, other ≠ '-' → other.isDigit = false → c ≠ other := by
    rintro other hminus hdigit rfl
    rcases hc with h | h
    · exact hminus h
    · rw [h] at hdigit
      cases hdigit
  rw [parseValue, if_neg (hne 'n' (by decide) (by decide)),
    if_neg (hne 't' (by decide) (by decide)), if_neg (hne 'f' (by decide) (by decide)),
    if_neg (hne '"' (by decide) (by decide)), if_neg (hne '[' (by decide) (by decide)),
    if_neg (hne '{' (by decide) (by decide))]

/-- The parser reads back what was printed. -/
theorem parseValue_compact {d : Nat} {j : Json} (h : Native d j) : ReadBack j := by
  -- The fuel is as long as the text, so every part of a value leaves enough for the next one.
  induction h with
  | null | bool _ b =>
      intro rest fuel _ hfuel
      first | cases b | skip
      all_goals
        obtain ⟨fuel, rfl⟩ : ∃ k, fuel = k + 1 := ⟨fuel - 1, by simp [compact] at hfuel; omega⟩
        rfl
  | @num _ n =>
      intro rest fuel hrest hfuel
      obtain ⟨c, cs, heq, hc⟩ := intText_cons n
      have hcompact : compact (num n) = c :: cs := heq
      rw [hcompact] at hfuel ⊢
      obtain ⟨fuel, rfl⟩ : ∃ k, fuel = k + 1 := ⟨fuel - 1, by simp at hfuel; omega⟩
      rw [List.cons_append, parseValue_int _ _ hc, ← List.cons_append, ← heq,
        parseInt_intText n hrest]
      rfl
  | str _ s =>
      intro rest fuel _ hfuel
      have hlen := length_quoted s
      simp only [compact] at hfuel
      obtain ⟨fuel, rfl⟩ : ∃ k, fuel = k + 1 := ⟨fuel - 1, by omega⟩
      have htext : compact (str s) ++ rest = '"' :: (s.toList.flatMap escape ++ '"' :: rest) := by
        simp [compact, quoted]
      rw [htext, parseValue, if_neg (by decide), if_neg (by decide), if_neg (by decide),
        if_pos rfl, parseString_quoted s rest fuel hfuel]
      simp
  | @arr _ items hitems ih =>
      intro rest fuel _ hfuel
      cases items with
      | nil =>
          obtain ⟨fuel, rfl⟩ : ∃ k, fuel = k + 1 := ⟨fuel - 1, by simp [compact] at hfuel; omega⟩
          rfl
      | cons j items =>
          simp only [compact, List.length_cons, List.length_append] at hfuel
          obtain ⟨fuel, rfl⟩ : ∃ k, fuel = k + 1 := ⟨fuel - 1, by omega⟩
          obtain ⟨c, cs, heq, hbracket, _⟩ := compact_cons (hitems j List.mem_cons_self)
          -- No item begins with the bracket that would end the array.
          have hnone : expect [']'] (compact j ++ (compactItems items ++ rest)) = none := by
            rw [heq]
            exact expect_of_ne hbracket _
          have hj := ih j List.mem_cons_self (compactItems items ++ rest) fuel
            (ends_compactItems items rest) (by omega)
          have hrest := parseItems_compactItems (fun j hj => ih j (List.mem_cons_of_mem _ hj)) rest
            fuel (by omega)
          rw [compact, List.cons_append, List.append_assoc, parseValue, if_neg (by decide),
            if_neg (by decide), if_neg (by decide), if_neg (by decide), if_pos rfl, hnone]
          show (parseValue fuel _).bind _ = _
          rw [hj]
          show (parseItems fuel _).bind _ = _
          rw [hrest]
          rfl
  | @obj _ entries _ ih =>
      intro rest fuel _ hfuel
      rcases entries with _ | ⟨⟨key, j⟩, entries⟩
      · obtain ⟨fuel, rfl⟩ : ∃ k, fuel = k + 1 := ⟨fuel - 1, by simp [compact] at hfuel; omega⟩
        rfl
      · simp only [compact, List.length_cons, List.length_append] at hfuel
        obtain ⟨fuel, rfl⟩ : ∃ k, fuel = k + 1 := ⟨fuel - 1, by omega⟩
        have hnone : expect ['}'] (quoted key ++ ':' :: (compact j ++ (compactEntries entries ++
            rest))) = none := expect_of_ne (by decide) _
        have hkey := parseKey_quoted key (compact j ++ (compactEntries entries ++ rest)) fuel
          (by omega)
        have hread : ReadBack j := ih (key, j) List.mem_cons_self
        have hj := hread (compactEntries entries ++ rest) fuel (ends_compactEntries entries rest)
          (by omega)
        have hrest := parseEntries_compactEntries
          (fun entry hentry => ih entry (List.mem_cons_of_mem _ hentry)) rest fuel (by omega)
        rw [compact, List.cons_append, List.append_assoc, List.cons_append, List.append_assoc,
          parseValue, if_neg (by decide), if_neg (by decide), if_neg (by decide),
          if_neg (by decide), if_neg (by decide), if_pos rfl, hnone]
        show (parseKey fuel _).bind _ = _
        rw [hkey]
        show (parseValue fuel _).bind _ = _
        rw [hj]
        show (parseEntries fuel _).bind _ = _
        rw [hrest]
        rfl

end Json
