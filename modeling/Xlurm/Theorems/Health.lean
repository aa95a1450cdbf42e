/-
  Xlurm.Theorems.Health

  The health text of the HCU tool is read fail-closed, with one exception.

  Several lines for one card overwrite each other in the map, so the last one
  decides: a healthy line hides every bad one before it.
-/

import Xlurm.Device.Inventory

namespace Xlurm

/-! ## Card lines -/

/-- The number and the status of a card line, as they are written. -/
def cardLine (line : List Char) : Option (List Char × List Char) :=
  (Text.splitOnce ':' line).bind fun parts =>
    (Text.stripPrefix "HCU[".toList (Text.trim parts.1)).map fun card =>
      (Text.trimEndMatches (· = ']') card, Text.trim (Text.afterLast ':' line))

/-- The status of a card line is `healthy`, up to case. -/
def saysHealthy (status : List Char) : Bool := Text.eqIgnoreAsciiCase status "healthy".toList

def cardLines (text : String) : List (List Char × List Char) :=
  (Text.lines text.toList).filterMap cardLine

/-- The card lines of card `i`. -/
def linesOf (i : Nat) (lines : List (List Char × List Char)) : List (List Char × List Char) :=
  lines.filter fun line => parseU32 line.1 = some i

/-- Every card line has a number and a status. -/
def Readable (lines : List (List Char × List Char)) : Prop :=
  ∀ line ∈ lines, (parseU32 line.1).isSome = true ∧ line.2 ≠ []

theorem blank_colon : Text.isWhitespace ':' = false := by decide

/-- Blanks around a line are no part of its card line. -/
theorem hcuHealthLine_eq (line : List Char) :
    hcuHealthLine line =
      match cardLine line with
      | none => some none
      | some (number, status) =>
          match parseU32 number with
          | none => none
          | some id => if status = [] then none else some (some (id, saysHealthy status)) := by
  obtain ⟨front, back, hline, hfront, hback⟩ := Text.trim_spec line
  have hfront' : ':' ∉ front := hfront.notMem blank_colon
  have hback' : ':' ∉ back := hback.notMem blank_colon
  unfold hcuHealthLine cardLine
  cases hsplit : Text.splitOnce ':' (Text.trim line) with
  -- A colon is no blank, so a trimmed line has one iff the line has.
  | none =>
      have hnone : Text.splitOnce ':' line = none := by
        rw [Text.splitOnce_eq_none] at hsplit ⊢
        rw [hline, List.mem_append, List.mem_append]
        rintro ((h | h) | h)
        · exact hfront' h
        · exact hsplit h
        · exact hback' h
      rw [hnone]
      rfl
  | some parts =>
      obtain ⟨card, status⟩ := parts
      obtain ⟨htrim, hcard⟩ := Text.splitOnce_eq_some.mp hsplit
      have hwhole : line = (front ++ card) ++ ':' :: (status ++ back) := by
        rw [hline, htrim]
        simp
      have hsome : Text.splitOnce ':' line = some (front ++ card, status ++ back) := by
        rw [hwhole]
        apply Text.splitOnce_append
        rw [List.mem_append, not_or]
        exact ⟨hfront', hcard⟩
      -- The status begins after the last colon, the card number ends before the first.
      have hlast : Text.trim (Text.afterLast ':' line) = Text.trim (Text.afterLast ':' status) := by
        rw [hwhole, Text.afterLast_append_cons, Text.afterLast_append hback',
          Text.trim_append_right hback]
      rw [hsome]
      dsimp only [Option.bind_some]
      rw [Text.trim_append_left hfront, hlast]
      cases hprefix : Text.stripPrefix "HCU[".toList (Text.trim card) with
      | none => rfl
      | some number =>
          dsimp only [Option.map_some]
          cases parseU32 (Text.trimEndMatches (· = ']') number) with
          | none => rfl
          | some id => rfl

/-! ## The map -/

/-- The last line of a card decides, or else what was known before. -/
def verdict (lines : List (List Char × List Char)) (before : Option Bool) : Option Bool :=
  match lines.getLast? with
  | some line => some (saysHealthy line.2)
  | none => before

theorem verdict_cons (line : List Char × List Char) (lines : List (List Char × List Char))
    (before : Option Bool) :
    verdict (line :: lines) before = verdict lines (some (saysHealthy line.2)) := by
  rw [verdict, verdict, List.getLast?_cons]
  cases lines.getLast? with
  | none => rfl
  | some last => rfl

theorem linesOf_cons (i : Nat) (line : List Char × List Char)
    (lines : List (List Char × List Char)) :
    linesOf i (line :: lines) =
      if parseU32 line.1 = some i then line :: linesOf i lines else linesOf i lines := by
  rw [linesOf, List.filter_cons, linesOf]
  simp only [decide_eq_true_eq]

/-- What the loop has done with these lines, if all of them can be read. -/
theorem hcuHealthLines_some {lines : List (List Char)} (health : List (Nat × Bool))
    (h : Readable (lines.filterMap cardLine)) :
    ∃ map, hcuHealthLines lines health = some map ∧ ∀ i,
      map.lookup i = verdict (linesOf i (lines.filterMap cardLine)) (health.lookup i) := by
  induction lines generalizing health with
  | nil => exact ⟨health, rfl, fun _ => rfl⟩
  | cons line lines ih =>
      rw [hcuHealthLines, hcuHealthLine_eq]
      cases hline : cardLine line with
      | none =>
          rw [List.filterMap_cons_none hline] at h ⊢
          exact ih health h
      | some parts =>
          obtain ⟨number, status⟩ := parts
          rw [List.filterMap_cons_some hline] at h ⊢
          obtain ⟨hnumber, hstatus⟩ := h _ List.mem_cons_self
          obtain ⟨id, hid⟩ := Option.isSome_iff_exists.mp hnumber
          obtain ⟨map, hmap, hlookup⟩ := ih ((id, saysHealthy status) :: health.filter (·.1 ≠ id))
            fun line' hline' => h line' (List.mem_cons_of_mem _ hline')
          refine ⟨map, ?_, fun i => ?_⟩
          · dsimp only
            rw [hid]
            dsimp only
            rw [if_neg hstatus]
            exact hmap
          · rw [hlookup, Text.lookup_insert, linesOf_cons, hid]
            by_cases hi : i = id
            · rw [if_pos hi, if_pos (by rw [hi]), verdict_cons]
            · rw [if_neg hi, if_neg fun heq => hi (Option.some.inj heq).symm]

/-- A card line that cannot be read spoils the text. -/
theorem hcuHealthLines_none {lines : List (List Char)} (health : List (Nat × Bool))
    (h : ¬ Readable (lines.filterMap cardLine)) : hcuHealthLines lines health = none := by
  induction lines generalizing health with
  | nil => exact absurd (by simp [Readable]) h
  | cons line lines ih =>
      rw [hcuHealthLines, hcuHealthLine_eq]
      cases hline : cardLine line with
      | none =>
          rw [List.filterMap_cons_none hline] at h
          exact ih health h
      | some parts =>
          obtain ⟨number, status⟩ := parts
          rw [List.filterMap_cons_some hline] at h
          dsimp only
          cases hnumber : parseU32 number with
          | none => rfl
          | some id =>
              dsimp only
              by_cases hstatus : status = []
              · rw [if_pos hstatus]
                rfl
              · rw [if_neg hstatus]
                apply ih
                intro hrest
                apply h
                intro line' hline'
                rcases List.mem_cons.mp hline' with rfl | hline'
                · exact ⟨by rw [hnumber]; rfl, hstatus⟩
                · exact hrest line' hline'

/-! ## The law -/

/-- The text is read fail-closed: refused as a whole, or every card is healthy just where all
    its lines say so. -/
structure FailClosed (lines : List (List Char × List Char)) (result : Option (List (Nat × Bool))) :
    Prop where
  refused : lines = [] ∨ ¬ Readable lines → result = none
  accepted : lines ≠ [] → Readable lines → ∃ map, result = some map ∧
    (∀ i, (map.lookup i).isSome = true ↔ linesOf i lines ≠ []) ∧
    ∀ i, map.lookup i = some true ↔
      linesOf i lines ≠ [] ∧ ∀ line ∈ linesOf i lines, saysHealthy line.2 = true

/-- In a text that can be read, a card has a line that is not healthy, but the last one is. -/
def Outweighed (lines : List (List Char × List Char)) : Prop :=
  Readable lines ∧ ∃ i last, (linesOf i lines).getLast? = some last ∧
    saysHealthy last.2 = true ∧ ∃ line ∈ linesOf i lines, saysHealthy line.2 = false

theorem eq_nil_of_lookup {map : List (Nat × Bool)} (h : ∀ i, map.lookup i = none) : map = [] := by
  cases map with
  | nil => rfl
  | cons entry map =>
      have hentry := h entry.1
      rw [List.lookup_cons, beq_self_eq_true] at hentry
      cases hentry

theorem verdict_isSome {lines : List (List Char × List Char)} :
    (verdict lines none).isSome = true ↔ lines ≠ [] := by
  rw [verdict]
  cases hlast : lines.getLast? with
  | none => exact iff_of_false (by simp) (not_not_intro (List.getLast?_eq_none_iff.mp hlast))
  | some line =>
      refine iff_of_true rfl ?_
      rintro rfl
      cases hlast

/-- Where the last line does not outweigh another one, it speaks for all. -/
theorem verdict_true_iff {lines : List (List Char × List Char)}
    (h : ∀ last, lines.getLast? = some last → saysHealthy last.2 = true →
      ∀ line ∈ lines, saysHealthy line.2 = true) :
    verdict lines none = some true ↔
      lines ≠ [] ∧ ∀ line ∈ lines, saysHealthy line.2 = true := by
  rw [verdict]
  cases hlast : lines.getLast? with
  | none =>
      rw [List.getLast?_eq_none_iff.mp hlast]
      exact iff_of_false (by simp) (by simp)
  | some last =>
      have hmem := List.mem_of_getLast? hlast
      constructor
      · intro heq
        exact ⟨List.ne_nil_of_mem hmem, h last hlast (Option.some.inj heq)⟩
      · rintro ⟨_, hall⟩
        exact congrArg some (hall last hmem)

theorem linesOf_nil_of_unread {lines : List (List Char × List Char)} (hread : Readable lines)
    (h : ∀ i, linesOf i lines = []) : lines = [] := by
  cases lines with
  | nil => rfl
  | cons line lines =>
      obtain ⟨id, hid⟩ := Option.isSome_iff_exists.mp (hread line List.mem_cons_self).1
      have hnil := h id
      rw [linesOf_cons, if_pos hid] at hnil
      cases hnil

/-- The result for a text that can be read: only one without card lines gives no map. -/
theorem hcuHealthStatus_readable {text : String} (hread : Readable (cardLines text)) :
    ∃ map, (hcuHealthStatus text = if cardLines text = [] then none else some map) ∧
      ∀ i, map.lookup i = verdict (linesOf i (cardLines text)) none := by
  obtain ⟨map, hmap, hfound⟩ := hcuHealthLines_some [] hread
  have hlookup : ∀ i, map.lookup i = verdict (linesOf i (cardLines text)) none := hfound
  have hnil : map = [] ↔ cardLines text = [] := by
    constructor
    · rintro rfl
      apply linesOf_nil_of_unread hread
      intro i
      have hnone := hlookup i
      by_contra hsome
      rw [← ne_eq, ← verdict_isSome, ← hnone] at hsome
      cases hsome
    · intro hlines
      apply eq_nil_of_lookup
      intro i
      rw [hlookup, hlines]
      rfl
  refine ⟨map, ?_, hlookup⟩
  rw [hcuHealthStatus, hmap, ← if_congr hnil rfl rfl]
  rfl

/-- The health text is read fail-closed, unless a healthy last line outweighs a bad one. -/
theorem hcuHealth_failClosed_iff (text : String) :
    FailClosed (cardLines text) (hcuHealthStatus text) ↔ ¬ Outweighed (cardLines text) := by
  by_cases hread : Readable (cardLines text)
  · obtain ⟨map, hstatus, hlookup⟩ := hcuHealthStatus_readable hread
    constructor
    · rintro h ⟨_, i, last, hlast, hhealthy, line, hline, hbad⟩
      have hne : cardLines text ≠ [] := by
        intro hnil
        rw [hnil] at hline
        cases hline
      obtain ⟨map', hmap', _, htrue⟩ := h.accepted hne hread
      rw [hstatus, if_neg hne] at hmap'
      obtain rfl := Option.some.inj hmap'
      -- The last line alone has marked the card as healthy.
      have hmarked : map.lookup i = some true := by
        rw [hlookup, verdict, hlast]
        exact congrArg some hhealthy
      have hall := ((htrue i).mp hmarked).2 line hline
      rw [hbad] at hall
      cases hall
    · intro hnot
      constructor
      · rintro (hnil | hunread)
        · rw [hstatus, if_pos hnil]
        · exact absurd hread hunread
      · intro hne _
        refine ⟨map, by rw [hstatus, if_neg hne], fun i => ?_, fun i => ?_⟩
        · rw [hlookup, verdict_isSome]
        · rw [hlookup]
          apply verdict_true_iff
          intro last hlast hhealthy line hline
          cases hbad : saysHealthy line.2 with
          | true => rfl
          | false => exact absurd ⟨hread, i, last, hlast, hhealthy, line, hline, hbad⟩ hnot
  -- A card line that cannot be read: there is no map, and nothing is outweighed.
  · have hnone : hcuHealthStatus text = none := by
      rw [hcuHealthStatus, hcuHealthLines_none [] hread]
      rfl
    refine iff_of_true ⟨fun _ => hnone, fun _ h => absurd h hread⟩ ?_
    rintro ⟨h, _⟩
    exact hread h

/-- A card that is critical, and then healthy. -/
def relapse : String := "HCU[0] : Bus Id : 0000:01:00.0 : Critical\nHCU[0] : Bus Id : Healthy\n"

/-- It is taken for healthy. -/
theorem relapse_not_failClosed :
    ¬ ∀ text, FailClosed (cardLines text) (hcuHealthStatus text) := by
  intro h
  apply (hcuHealth_failClosed_iff relapse).mp (h relapse)
  have hlines : cardLines relapse =
      [("0".toList, "Critical".toList), ("0".toList, "Healthy".toList)] := by decide
  rw [hlines]
  refine ⟨?_, 0, ("0".toList, "Healthy".toList), by decide, by decide,
    ("0".toList, "Critical".toList), by decide, by decide⟩
  unfold Readable
  decide

end Xlurm
