/-
  Xlurm.Json.Codec

  Messages in bytes: the UTF-8 bytes of a text, what a JSON library is relied on
  for, and a library that is relied on rightly.
-/

import Xlurm.Json.Text

namespace Json

/-- The byte that ends a line. -/
def newline : UInt8 := 10

/-! ## No text has a line break -/

theorem newline_notMem_escape (c : Char) : '\n' ∉ escape c := by
  rw [escape]
  cases hfind : escapes.find? (·.1 == c) with
  | some entry =>
      have hletters : ∀ entry ∈ escapes, '\n' ∉ ['\\', entry.2] := by decide
      exact hletters _ (List.mem_of_find?_eq_some hfind)
  | none =>
      have hdigits : ∀ n < 16, Nat.digitChar n ≠ '\n' := by decide
      dsimp only
      split
      · rename_i hlow
        have hhigh := hdigits (c.toNat / 16) (by omega)
        have hrest := hdigits (c.toNat % 16) (by omega)
        simp [hhigh.symm, hrest.symm]
      · have hne := List.find?_eq_none.mp hfind ('\n', 'n') (by decide)
        simpa using hne

theorem newline_notMem_quoted (s : String) : '\n' ∉ quoted s := by
  intro hmem
  simp only [quoted, List.cons_append, List.mem_cons, List.mem_append, List.mem_flatMap] at hmem
  rcases hmem with h | ⟨c, _, hc⟩ | h | h
  · cases h
  · exact newline_notMem_escape c hc
  · cases h
  · cases h

theorem newline_notMem_intText (n : Int) : '\n' ∉ intText n := by
  have hdigits : ∀ k : Nat, '\n' ∉ Nat.toDigits 10 k := by
    intro k hmem
    exact absurd (Nat.isDigit_of_mem_toDigits (by decide) (by decide) hmem) (by decide)
  cases n with
  | ofNat n => exact hdigits n
  | negSucc n =>
      intro hmem
      rcases List.mem_cons.mp hmem with h | h
      · cases h
      · exact hdigits (n + 1) h

theorem newline_notMem_compactItems {items : List Json} (h : ∀ j ∈ items, '\n' ∉ compact j) :
    '\n' ∉ compactItems items := by
  induction items with
  | nil => decide
  | cons j items ih =>
      have hj := h j List.mem_cons_self
      have hitems := ih fun j hj => h j (List.mem_cons_of_mem _ hj)
      simp [compactItems, hj, hitems]

theorem newline_notMem_compactEntries {entries : List (String × Json)}
    (h : ∀ entry ∈ entries, '\n' ∉ compact entry.2) : '\n' ∉ compactEntries entries := by
  induction entries with
  | nil => decide
  | cons entry entries ih =>
      obtain ⟨key, j⟩ := entry
      have hj : '\n' ∉ compact j := h (key, j) List.mem_cons_self
      have hentries := ih fun entry hentry => h entry (List.mem_cons_of_mem _ hentry)
      simp [compactEntries, newline_notMem_quoted, hj, hentries]

theorem newline_notMem_compact {d : Nat} {j : Json} (h : Native d j) : '\n' ∉ compact j := by
  induction h with
  | null => decide
  | bool _ b => cases b <;> decide
  | num => exact newline_notMem_intText _
  | str _ s => exact newline_notMem_quoted s
  | @arr _ items _ ih =>
      cases items with
      | nil => decide
      | cons j items =>
          have hj := ih j List.mem_cons_self
          have hitems := newline_notMem_compactItems fun j hj => ih j (List.mem_cons_of_mem _ hj)
          simp [compact, hj, hitems]
  | @obj _ entries _ ih =>
      rcases entries with _ | ⟨⟨key, j⟩, entries⟩
      · decide
      · have hj : '\n' ∉ compact j := ih (key, j) List.mem_cons_self
        have hentries := newline_notMem_compactEntries
          fun entry hentry => ih entry (List.mem_cons_of_mem _ hentry)
        simp [compact, newline_notMem_quoted, hj, hentries]

/-! ## Bytes -/

/-- The bytes of a text. -/
def utf8 (cs : List Char) : List UInt8 := cs.flatMap String.utf8EncodeChar

/-- The text of these bytes. -/
def ofUtf8 (bytes : List UInt8) : Option (List Char) :=
  (ByteArray.utf8Decode? bytes.toByteArray).map Array.toList

theorem ofUtf8_utf8 (cs : List Char) : ofUtf8 (utf8 cs) = some cs := by
  have hencode : (utf8 cs).toByteArray = cs.utf8Encode := rfl
  rw [ofUtf8, hencode, List.utf8Decode?_utf8Encode]
  rfl

/-- Every byte of a longer encoding is at least 128. -/
theorem newline_notMem_utf8EncodeChar {c : Char} (hc : c ≠ '\n') :
    newline ∉ String.utf8EncodeChar c := by
  have hval : c.val.toNat ≠ 10 := by
    intro h
    exact hc (Char.toNat_inj.mp h)
  have hne : ∀ n : Nat, n % 256 ≠ 10 → newline ≠ UInt8.ofNat n := by
    rintro n hn heq
    apply hn
    have hnat := congrArg UInt8.toNat heq
    rw [UInt8.toNat_ofNat'] at hnat
    exact hnat.symm
  have hvalid := c.valid
  simp only [String.utf8EncodeChar]
  intro hmem
  split at hmem
  · exact hne _ (by omega) (List.mem_singleton.mp hmem)
  · split at hmem
    · simp only [List.mem_cons, List.not_mem_nil, or_false] at hmem
      rcases hmem with h | h <;> exact hne _ (by omega) h
    · split at hmem
      · simp only [List.mem_cons, List.not_mem_nil, or_false] at hmem
        rcases hmem with h | h | h <;> exact hne _ (by omega) h
      · simp only [List.mem_cons, List.not_mem_nil, or_false] at hmem
        rcases hmem with h | h | h | h <;> exact hne _ (by omega) h

theorem newline_notMem_utf8 {cs : List Char} (h : '\n' ∉ cs) : newline ∉ utf8 cs := by
  intro hmem
  obtain ⟨c, hc, hbyte⟩ := List.mem_flatMap.mp hmem
  refine newline_notMem_utf8EncodeChar ?_ hbyte
  rintro rfl
  exact h hc

/-! ## What a library is relied on for -/

/-- A JSON library: how it writes a value, how it reads a message, and what it says of a message
that it cannot read, or that is not the value that was expected. -/
structure Codec where
  print : Json → List UInt8
  parse : List UInt8 → Option Json
  error : List UInt8 → String

/-- Values of at most `d` levels are written on one line and read back; a line break after a value
does not matter. -/
structure Codec.Lawful (c : Codec) (d : Nat) : Prop where
  parse_print : ∀ j, Native d j → c.parse (c.print j) = some j
  print_line : ∀ j, Native d j → newline ∉ c.print j
  parse_line : ∀ bytes j, c.parse bytes = some j → c.parse (bytes ++ [newline]) = some j

/-! ## A library for compact texts -/

/-- The value of a whole text. -/
def parseText (cs : List Char) : Option Json :=
  match parseValue cs.length cs with
  | some (j, []) => some j
  | _ => none

theorem parseText_compact {d : Nat} {j : Json} (h : Native d j) : parseText (compact j) = some j := by
  have hread := parseValue_compact h [] (compact j).length (by intro c hc; cases hc) (Nat.le_refl _)
  rw [List.append_nil] at hread
  rw [parseText, hread]

/-- Without the line breaks at the end. -/
def trimLines (bytes : List UInt8) : List UInt8 :=
  (bytes.reverse.dropWhile (· == newline)).reverse

theorem trimLines_line (bytes : List UInt8) : trimLines (bytes ++ [newline]) = trimLines bytes := by
  rw [trimLines, List.reverse_append]
  rfl

theorem trimLines_of_notMem {bytes : List UInt8} (h : newline ∉ bytes) : trimLines bytes = bytes := by
  have hfirst : bytes.reverse.dropWhile (· == newline) = bytes.reverse := by
    cases hrev : bytes.reverse with
    | nil => rfl
    | cons b rest =>
        have hb : b ∈ bytes := by
          rw [← List.mem_reverse, hrev]
          exact List.mem_cons_self
        have hne : ¬(b == newline) = true := by
          intro heq
          exact h (eq_of_beq heq ▸ hb)
        rw [List.dropWhile_cons, if_neg hne]
  rw [trimLines, hfirst, List.reverse_reverse]

def Codec.compact : Codec where
  print j := utf8 (Json.compact j)
  parse bytes := (ofUtf8 (trimLines bytes)).bind parseText
  error _ := "expected value"

theorem Codec.compact_lawful (d : Nat) : Codec.compact.Lawful d where
  parse_print := by
    intro j h
    have hline := newline_notMem_utf8 (newline_notMem_compact h)
    show (ofUtf8 (trimLines (utf8 (Json.compact j)))).bind parseText = some j
    rw [trimLines_of_notMem hline, ofUtf8_utf8, Option.bind_some, parseText_compact h]
  print_line j h := newline_notMem_utf8 (newline_notMem_compact h)
  parse_line := by
    intro bytes j h
    show (ofUtf8 (trimLines (bytes ++ [newline]))).bind parseText = some j
    rw [trimLines_line]
    exact h

end Json
