/-
  Xlurm.Theorems.Nvidia

  The inventory of `nvidia-smi` is read back as it is printed, and a text that
  is no inventory is rejected as a whole.
-/

import Mathlib.Data.List.Forall2
import Xlurm.Device.Inventory
import Xlurm.Model.Allocation

namespace Xlurm

/-! ## Rows -/

/-- A line that describes a device: three fields, of which the last may hold commas. -/
inductive Row : List Char → Device → Prop
  | intro {index uuid name : List Char} {id : Nat} (hindex : ',' ∉ index) (huuid : ',' ∉ uuid)
      (hid : parseU32 (Text.trim index) = some id) (hstart : "GPU-".toList <+: Text.trim uuid) :
      Row (index ++ ',' :: (uuid ++ ',' :: name))
        { kind := .nvidia, id, visible := String.ofList (Text.trim uuid)
          name := String.ofList (Text.trim name), npu := none, chip := none }

theorem parseId_eq_ok {cs : List Char} {id : Nat} :
    parseId cs = .ok id ↔ parseU32 cs = some id := by
  unfold parseId
  cases h : parseU32 cs with
  | some found =>
      show Except.ok found = .ok id ↔ some found = some id
      rw [Except.ok.injEq, Option.some.injEq]
  | none =>
      constructor
      · intro hok
        split at hok
        · contradiction
        all_goals cases hok
      · rintro ⟨⟩

/-- The parser accepts a line exactly as the row it is. -/
theorem parseNvidiaLine_eq_ok {line : List Char} {device : Device} :
    parseNvidiaLine line = .ok device ↔ Row line device := by
  constructor
  · intro h
    unfold parseNvidiaLine at h
    split at h
    · rename_i index uuid name hfields
      obtain ⟨index, rest, hsplit, rfl, hrest⟩ := List.map_eq_cons_iff.mp hfields
      obtain ⟨uuid, rest', rfl, rfl, hrest'⟩ := List.map_eq_cons_iff.mp hrest
      obtain ⟨name, rest'', rfl, rfl, hnil⟩ := List.map_eq_cons_iff.mp hrest'
      rw [List.map_eq_nil_iff.mp hnil] at hsplit
      obtain ⟨rfl, hindex, huuid⟩ := Text.splitn_three.mp hsplit
      split at h
      · rename_i hstart
        cases hid : parseId (Text.trim index) with
        | error e =>
            rw [hid] at h
            cases h
        | ok id =>
            rw [hid] at h
            cases h
            exact .intro hindex huuid (parseId_eq_ok.mp hid) (List.isPrefixOf_iff_prefix.mp hstart)
      · cases h
    · cases h
  · rintro ⟨hindex, huuid, hid, hstart⟩
    rename_i index uuid name id
    have hfields : Text.splitn ',' 3 (index ++ ',' :: (uuid ++ ',' :: name)) = [index, uuid, name] :=
      Text.splitn_three.mpr ⟨rfl, hindex, huuid⟩
    unfold parseNvidiaLine
    rw [hfields]
    show (if "GPU-".toList.isPrefixOf (Text.trim uuid) = true then _ else _) = _
    rw [if_pos (List.isPrefixOf_iff_prefix.mpr hstart), parseId_eq_ok.mpr hid]
    rfl

theorem Row.kind {line : List Char} {device : Device} (h : Row line device) :
    device.kind = .nvidia := by
  obtain ⟨-, -, -, -⟩ := h
  rfl

/-- A row has a comma, so it is not blank. -/
theorem Row.not_blank {line : List Char} {device : Device} (h : Row line device) :
    ¬ Text.Blank line := by
  obtain ⟨-, -, -, -⟩ := h
  intro hblank
  have hcomma := hblank ',' (List.mem_append_right _ List.mem_cons_self)
  exact absurd hcomma (by decide)

/-- The blank at the end of a row belongs to its name. -/
theorem Row.strip {line : List Char} {c : Char} {device : Device} (hc : Text.isWhitespace c = true)
    (h : Row (line ++ [c]) device) : Row line device := by
  have hcomma : c ≠ ',' := by
    rintro rfl
    exact absurd hc (by decide)
  generalize hwhole : line ++ [c] = whole at h
  obtain ⟨hindex, huuid, hid, hstart⟩ := h
  rename_i index uuid name id
  rcases List.eq_nil_or_concat name with rfl | ⟨name, last, rfl⟩
  · have hlast : line ++ [c] = (index ++ ',' :: uuid) ++ [','] := by
      rw [hwhole]
      simp
    exact absurd (List.append_inj' hlast rfl).2 (by simpa using hcomma)
  · have hlast : line ++ [c] = (index ++ ',' :: (uuid ++ ',' :: name)) ++ [last] := by
      rw [hwhole]
      simp
    obtain ⟨rfl, hlast⟩ := List.append_inj' hlast rfl
    obtain rfl : c = last := by simpa using hlast
    have hblank : Text.Blank [c] := by
      intro x hx
      rw [List.mem_singleton.mp hx]
      exact hc
    rw [List.concat_eq_append, Text.trim_append_right hblank]
    exact .intro hindex huuid hid hstart

/-! ## Texts -/

theorem toOption_eq_some {α : Type} {r : Except Error α} {a : α} :
    r.toOption = some a ↔ r = .ok a := by
  cases r <;> simp [Except.toOption]

theorem toOption_mapM {α β : Type} (f : α → Except Error β) (as : List α) :
    (as.mapM f).toOption = as.mapM fun a => (f a).toOption := by
  induction as with
  | nil => rfl
  | cons a as ih =>
      rw [List.mapM_cons, List.mapM_cons, ← ih]
      cases f a with
      | error e => rfl
      | ok b => cases as.mapM f <;> rfl

/-- A traversal succeeds exactly with the results of its elements. -/
theorem mapM_eq_ok {α β : Type} {f : α → Except Error β} {as : List α} {bs : List β} :
    as.mapM f = .ok bs ↔ List.Forall₂ (fun a b => f a = .ok b) as bs := by
  rw [← toOption_eq_some, toOption_mapM, mapM_eq_some_iff]
  simp only [toOption_eq_some]

/-- Devices of one kind have different keys exactly if they have different identifiers. -/
theorem nodup_key_iff {kind : Kind} {devices : List Device}
    (hkind : ∀ device ∈ devices, device.kind = kind) :
    (devices.map (·.key)).Nodup ↔ (devices.map (·.visible)).Nodup := by
  have hkeys : devices.map (·.key) =
      (devices.map (·.visible)).map fun visible => kind.display ++ ":" ++ visible := by
    rw [List.map_map]
    apply List.map_congr_left
    intro device hdevice
    show device.kind.display ++ ":" ++ device.visible = kind.display ++ ":" ++ device.visible
    rw [hkind device hdevice]
  rw [hkeys]
  apply List.nodup_map_iff
  intro a b hab
  exact String.append_right_inj _ |>.mp hab

/-- What the parser accepts, and as what. -/
theorem parseNvidia_eq_ok {text : String} {devices : List Device} :
    parseNvidia text = .ok devices ↔
      List.Forall₂ Row (inventoryLines text) devices ∧ devices ≠ [] ∧
        (devices.map (·.visible)).Nodup := by
  have hrows : ∀ ds, (inventoryLines text).mapM parseNvidiaLine = .ok ds ↔
      List.Forall₂ Row (inventoryLines text) ds := by
    intro ds
    rw [mapM_eq_ok]
    simp only [parseNvidiaLine_eq_ok]
  have hkinds : ∀ {ds}, List.Forall₂ Row (inventoryLines text) ds →
      ((ds.map (·.key)).Nodup ↔ (ds.map (·.visible)).Nodup) := by
    intro ds hds
    apply nodup_key_iff
    intro device hdevice
    obtain ⟨line, -, hrow⟩ := exists_of_mem_right hds hdevice
    exact hrow.kind
  unfold parseNvidia
  -- One line that is no row refuses the whole text.
  cases hds : (inventoryLines text).mapM parseNvidiaLine with
  | error e =>
      constructor
      · rintro ⟨⟩
      · rintro ⟨h, -, -⟩
        rw [(hrows devices).mpr h] at hds
        cases hds
  | ok ds =>
      have hforall := (hrows ds).mp hds
      show validate ds = .ok devices ↔ _
      rw [validate_eq_ok]
      constructor
      · rintro ⟨rfl, hne, hnodup⟩
        exact ⟨hforall, hne, (hkinds hforall).mp hnodup⟩
      · rintro ⟨h, hne, hnodup⟩
        have heq : ds = devices := by
          rw [(hrows devices).mpr h] at hds
          exact (Except.ok.inj hds).symm
        exact ⟨heq.symm, hne, (hkinds h).mpr hnodup⟩

/-! ## Printing -/

/-- A card, as it may be printed. -/
structure Card where
  index : Nat
  uuid : List Char
  name : List Char
  index_lt : index < 2 ^ 32
  uuid_start : "GPU-".toList <+: uuid
  uuid_comma : ',' ∉ uuid
  uuid_line : '\n' ∉ uuid
  name_line : '\n' ∉ name
  uuid_trim : Text.trim uuid = uuid
  name_trim : Text.trim name = name

/-- The device it is. -/
def Card.device (card : Card) : Device :=
  { kind := .nvidia, id := card.index, visible := String.ofList card.uuid
    name := String.ofList card.name, npu := none, chip := none }

/-- Blanks within one line. -/
abbrev Pad := { cs : List Char // Text.Blank cs ∧ '\n' ∉ cs }

/-- A line of the output: blank, or a card with the blanks around each of its fields. -/
inductive SheetLine
  | blank (pad : Pad)
  | card (card : Card) (index uuid name : Pad × Pad)

def padded (pad : Pad × Pad) (field : List Char) : List Char := pad.1.val ++ field ++ pad.2.val

def SheetLine.print : SheetLine → List Char
  | blank pad => pad.val
  | card c index uuid name =>
      padded index (Nat.toDigits 10 c.index) ++
        ',' :: (padded uuid c.uuid ++ ',' :: padded name c.name)

/-- The output with these lines. -/
def printSheet (sheet : List SheetLine) : String :=
  String.ofList (['\n'].intercalate (sheet.map SheetLine.print))

/-- The card of a line, if it has one. -/
def SheetLine.card? : SheetLine → Option Card
  | blank _ => none
  | card c _ _ _ => some c

theorem trim_padded (pad : Pad × Pad) (field : List Char) :
    Text.trim (padded pad field) = Text.trim field := by
  rw [padded, Text.trim_append_right pad.2.property.1, Text.trim_append_left pad.1.property.1]

theorem notMem_padded {pad : Pad × Pad} {field : List Char} {c : Char}
    (hblank : Text.isWhitespace c = false) (hfield : c ∉ field) : c ∉ padded pad field := by
  simp only [padded, List.mem_append, not_or]
  exact ⟨⟨pad.1.property.1.notMem hblank, hfield⟩, pad.2.property.1.notMem hblank⟩

theorem newline_notMem_padded {pad : Pad × Pad} {field : List Char} (h : '\n' ∉ field) :
    '\n' ∉ padded pad field := by
  simp only [padded, List.mem_append, not_or]
  exact ⟨⟨pad.1.property.2, h⟩, pad.2.property.2⟩

theorem notMem_toDigits {n : Nat} {c : Char} (hc : c.isDigit = false) : c ∉ Nat.toDigits 10 n := by
  intro hmem
  rw [isDigit_of_mem_toDigits hmem] at hc
  cases hc

theorem isWhitespace_of_isDigit {c : Char} (h : c.isDigit = true) : Text.isWhitespace c = false := by
  simp only [Char.isDigit, Bool.and_eq_true, decide_eq_true_eq, ge_iff_le,
    UInt32.le_iff_toNat_le] at h
  have hlow : 48 ≤ c.val.toNat := h.1
  have hhigh : c.val.toNat ≤ 57 := h.2
  simp only [Text.isWhitespace, Bool.or_eq_false_iff, Bool.and_eq_false_iff, beq_eq_false_iff_ne,
    decide_eq_false_iff_not, ne_eq, UInt32.le_iff_toNat_le, ← UInt32.toNat_inj,
    UInt32.reduceToNat]
  omega

theorem trim_toDigits (n : Nat) : Text.trim (Nat.toDigits 10 n) = Nat.toDigits 10 n := by
  apply Text.trim_eq_self
  intro c hc
  exact isWhitespace_of_isDigit (isDigit_of_mem_toDigits hc)

theorem row_print (card : Card) (index uuid name : Pad × Pad) :
    Row (SheetLine.card card index uuid name).print card.device := by
  have hindex : ',' ∉ padded index (Nat.toDigits 10 card.index) :=
    notMem_padded (by decide) (notMem_toDigits (by decide))
  have huuid : ',' ∉ padded uuid card.uuid := notMem_padded (by decide) card.uuid_comma
  have hid : parseU32 (Text.trim (padded index (Nat.toDigits 10 card.index))) = some card.index := by
    rw [trim_padded, trim_toDigits, parseU32, parseUnsigned_toDigits, if_pos card.index_lt]
  have huuid' : Text.trim (padded uuid card.uuid) = card.uuid :=
    (trim_padded uuid card.uuid).trans card.uuid_trim
  have hname' : Text.trim (padded name card.name) = card.name :=
    (trim_padded name card.name).trans card.name_trim
  have hrow : Row (SheetLine.card card index uuid name).print _ :=
    .intro hindex huuid hid (by rw [huuid']; exact card.uuid_start)
  rw [huuid', hname'] at hrow
  exact hrow

theorem newline_notMem_print (line : SheetLine) : '\n' ∉ line.print := by
  cases line with
  | blank pad => exact pad.property.2
  | card c index uuid name =>
      simp only [SheetLine.print, List.mem_append, List.mem_cons, not_or]
      refine ⟨newline_notMem_padded (notMem_toDigits (by decide)), by decide,
        newline_notMem_padded c.uuid_line, by decide, newline_notMem_padded c.name_line⟩

/-! ## Reading what is printed -/

/-- What a line of the text says of a line of the sheet. -/
def SheetLine.Says (line : List Char) : SheetLine → Prop
  | blank _ => Text.Blank line
  | card c _ _ _ => Row line c.device

theorem says_print (line : SheetLine) : line.Says line.print := by
  cases line with
  | blank pad => exact pad.property.1
  | card c index uuid name => exact row_print c index uuid name

/-- The carriage return that `lines` strips is no part of a card. -/
theorem says_stripLast (line : SheetLine) : line.Says (Text.stripLast '\r' line.print) := by
  have hsays := says_print line
  rcases Text.stripLast_spec '\r' line.print with heq | heq
  · rw [← heq]
    exact hsays
  · rw [heq] at hsays
    cases line with
    | blank pad => exact fun c hc => hsays c (List.mem_append_left _ hc)
    | card c index uuid name => exact Row.strip (by decide) hsays

theorem forall₂_row_of_says {lines : List (List Char)} {sheet : List SheetLine}
    (h : List.Forall₂ (fun text line => SheetLine.Says text line) lines sheet) :
    List.Forall₂ Row (lines.filter fun line => !Text.isBlank line)
      ((sheet.filterMap SheetLine.card?).map Card.device) := by
  induction h with
  | nil => exact .nil
  | @cons text line lines sheet hsays _ ih =>
      cases line with
      | blank pad =>
          have hblank : Text.isBlank text = true := Text.isBlank_iff.mpr hsays
          rw [List.filter_cons_of_neg (by simp [hblank])]
          exact ih
      | card c index uuid name =>
          have hrow : Row text c.device := hsays
          have hblank : Text.isBlank text = false := by
            rw [← Bool.not_eq_true, Text.isBlank_iff]
            exact hrow.not_blank
          rw [List.filter_cons_of_pos (by simp [hblank])]
          exact .cons hrow ih

theorem rows_printSheet (sheet : List SheetLine) :
    List.Forall₂ Row (inventoryLines (printSheet sheet))
      ((sheet.filterMap SheetLine.card?).map Card.device) := by
  rcases List.eq_nil_or_concat sheet with rfl | ⟨init, last, rfl⟩
  · exact .nil
  · rw [List.concat_eq_append]
    have hsplit : (['\n'].intercalate ((init ++ [last]).map SheetLine.print)).splitOn '\n' =
        (init ++ [last]).map SheetLine.print := by
      apply List.splitOn_intercalate
      · intro text htext
        obtain ⟨line, -, rfl⟩ := List.mem_map.mp htext
        exact newline_notMem_print line
      · simp
    have hlines : inventoryLines (printSheet (init ++ [last])) =
        (init.map (fun line => Text.stripLast '\r' line.print) ++ [last.print]).filter
          fun line => !Text.isBlank line := by
      rw [inventoryLines, printSheet, String.toList_ofList, Text.lines, hsplit]
      -- An empty last piece is no line, and would be a blank one.
      simp only [List.map_append, List.map_cons, List.map_nil, List.dropLast_concat, List.map_map,
        List.getLast?_concat, Option.toList_some, List.filter_append, List.filter_filter]
      congr 1
      apply List.filter_congr
      intro text htext
      by_cases hempty : text = []
      · subst hempty
        rfl
      · simp [hempty]
    rw [hlines]
    apply forall₂_row_of_says
    apply List.rel_append
    · rw [List.forall₂_map_left_iff, List.forall₂_same]
      intro line _
      exact says_stripLast line
    · exact .cons (says_print last) .nil

/-- `parse_nvidia` inverts printing, and accepts nothing but rows of different devices. -/
theorem parseNvidia_exact :
    (∀ sheet : List SheetLine, sheet.filterMap SheetLine.card? ≠ [] →
      ((sheet.filterMap SheetLine.card?).map Card.uuid).Nodup →
      parseNvidia (printSheet sheet) = .ok ((sheet.filterMap SheetLine.card?).map Card.device)) ∧
    (∀ text devices, parseNvidia text = .ok devices ↔
      List.Forall₂ Row (inventoryLines text) devices ∧ devices ≠ [] ∧
        (devices.map (·.visible)).Nodup) ∧
    (∀ text, (inventoryLines text = [] ∨ ∃ line ∈ inventoryLines text, ∀ device, ¬ Row line device) →
      ∃ e, parseNvidia text = .error e) := by
  refine ⟨?_, fun text devices => parseNvidia_eq_ok, ?_⟩
  · intro sheet hne hnodup
    rw [parseNvidia_eq_ok]
    refine ⟨rows_printSheet sheet, by simpa using hne, ?_⟩
    have hvisible : ((sheet.filterMap SheetLine.card?).map Card.device).map (·.visible) =
        ((sheet.filterMap SheetLine.card?).map Card.uuid).map String.ofList := by
      rw [List.map_map, List.map_map]
      rfl
    rw [hvisible]
    apply hnodup.map
    intro a b hab
    exact String.ofList_injective hab
  · intro text hbad
    cases hparse : parseNvidia text with
    | error e => exact ⟨e, rfl⟩
    | ok devices =>
        obtain ⟨hrows, hne, -⟩ := parseNvidia_eq_ok.mp hparse
        rcases hbad with hempty | ⟨line, hline, hnone⟩
        · rw [hempty, List.forall₂_nil_left_iff] at hrows
          exact absurd hrows hne
        · obtain ⟨device, -, hrow⟩ := exists_of_mem_left hrows hline
          exact absurd hrow (hnone device)

def Pad.none : Pad := ⟨[], Text.isBlank_iff.mp (by decide), by decide⟩

def Pad.blank : Pad := ⟨[' '], Text.isBlank_iff.mp (by decide), by decide⟩

def Card.h100 : Card where
  index := 3
  uuid := "GPU-abc".toList
  name := "NVIDIA H100, 80GB".toList
  index_lt := by decide
  uuid_start := by decide
  uuid_comma := by decide
  uuid_line := by decide
  name_line := by decide
  uuid_trim := by decide
  name_trim := by decide

def Card.a40 : Card :=
  { Card.h100 with
    index := 0, uuid := "GPU-def".toList, name := "NVIDIA A40".toList
    index_lt := by decide, uuid_start := by decide, uuid_comma := by decide
    uuid_line := by decide, name_line := by decide, uuid_trim := by decide, name_trim := by decide }

/-- The cards of a machine, as `nvidia-smi` prints them. -/
def SheetLine.cards : List SheetLine :=
  let pads := ((Pad.none, Pad.none), (Pad.blank, Pad.none), (Pad.blank, Pad.none))
  [.card .h100 pads.1 pads.2.1 pads.2.2, .blank .blank, .card .a40 pads.1 pads.2.1 pads.2.2,
    .blank .none]

/-- Two cards are read; a line without a name is no card. -/
theorem parseNvidia_exact_cards :
    parseNvidia "3, GPU-abc, NVIDIA H100, 80GB\n \n0, GPU-def, NVIDIA A40\n" =
        .ok [Card.h100.device, Card.a40.device] ∧
      ∃ e, parseNvidia "3, GPU-abc\n" = .error e := by
  obtain ⟨hread, _, hrefused⟩ := parseNvidia_exact
  have hprint : printSheet SheetLine.cards =
      "3, GPU-abc, NVIDIA H100, 80GB\n \n0, GPU-def, NVIDIA A40\n" := by decide +kernel
  refine ⟨?_, hrefused _ (Or.inr ⟨"3, GPU-abc".toList, by decide +kernel, ?_⟩)⟩
  · rw [← hprint]
    exact hread SheetLine.cards (by decide) (by decide)
  · intro device hrow
    have hline : (parseNvidiaLine "3, GPU-abc".toList).isOk = false := by decide +kernel
    rw [parseNvidiaLine_eq_ok.mpr hrow] at hline
    cases hline

end Xlurm
