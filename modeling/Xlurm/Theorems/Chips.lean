/-
  Xlurm.Theorems.Chips

  The legacy DCMI binding discovers the first chip of every card, and only that.

  A card with a second chip has a chip that no device stands for, and a negative
  card id becomes a large one; without either, discovery is complete.
-/

import Xlurm.Device.Ascend

namespace Xlurm

open Prog (Spec)
open Prog.Comp

variable {ω : Vendor} {tr : Asked}

/-! ## What the library reports -/

/-- What the library reported about one card. -/
structure CardReport where
  card : Int
  count : Option Int32
  info : Nat → Option UInt8

namespace CardReport

/-- How many chips the card has. -/
def chips (report : CardReport) : Int := (report.count.getD 0).toInt

/-- The calls that told it. -/
def calls (report : CardReport) : Asked :=
  [asked "dcmi_get_device_num_in_card" [report.card] .int ⟨0, report.count⟩,
    asked "dcmi_get_device_chip_info" [report.card, 0] .bytes ⟨0, report.info⟩]

end CardReport

/-- The chips of all cards. -/
def totalChips : List CardReport → Int
  | [] => 0
  | report :: reports => report.chips + totalChips reports

/-- The ids in a list that the library has filled. -/
def listedIds (list : (Nat → Option Int32) × Option Int32) : List Int :=
  ((buffer list.1 64 0).take (list.2.getD 0).toInt.toNat).map Int32.toInt

/-- What the library reported in one discovery: the list of its cards, and each of them. -/
structure LegacyReport where
  list : (Nat → Option Int32) × Option Int32
  cards : List CardReport
  listed : cards.map (·.card) = listedIds list

def LegacyReport.calls (report : LegacyReport) : Asked :=
  asked "dcmi_get_card_list" [] .ints ⟨0, report.list⟩ :: report.cards.flatMap CardReport.calls

/-! ## What discovery should find -/

/-- The status query of the device is about this chip of this card: it asks for its health
    and, if that is good, for its processes. -/
def AsksAbout (device : Device) (card chip : Int) : Prop :=
  ∀ (ω : Vendor) (tr : Asked), ∃ health rest,
    ((Legacy.status device ()).run ω tr).trace =
      tr ++ asked "dcmi_get_device_health" [card, chip] .uint health :: rest ∧
    (health.code = 0 → health.out = some 0 → ∃ processes,
      rest = [asked "dcmi_get_device_resource_info" [card, chip] .int processes])

/-- Every chip of every card is a device. -/
structure Covers (cards : List CardReport) (devices : List Device) : Prop where
  /-- There are as many as the library counted. -/
  length : (devices.length : Int) = totalChips cards
  /-- The ids are those of the library, which are not negative. -/
  ids : ∀ device ∈ devices, ∃ report ∈ cards, 0 ≤ report.card ∧ (device.id : Int) = report.card
  keys : (devices.map Device.key).Nodup
  /-- No chip is left out when the status is asked for. -/
  asked : ∀ report ∈ cards, ∀ chip, 0 ≤ chip → chip < report.chips →
    ∃ device ∈ devices, AsksAbout device report.card chip

/-! ## What discovery finds -/

theorem counted_wp {what : String} {list : (Nat → Option Int32) × Option Int32}
    {Q : Unit → Except Error (List Int) → Asked → Prop} (hok : Q () (.ok (listedIds list)) tr)
    (herr : ∀ e, Q () (.error e) tr) :
    wp (Spec.oracle Unit ω) (counted what list) Q () tr := by
  rw [counted, wp_bind, wp_ensure]
  exact ⟨fun _ => hok, fun _ => herr _⟩

/-- The ids are C integers. -/
theorem listedIds_bounds {list : (Nat → Option Int32) × Option Int32} {card : Int}
    (h : card ∈ listedIds list) : -2 ^ 31 ≤ card ∧ card < 2 ^ 31 := by
  obtain ⟨n, -, rfl⟩ := List.mem_map.mp h
  exact ⟨n.le_toInt, n.toInt_lt⟩

theorem LegacyReport.bounds (report : LegacyReport) :
    ∀ card ∈ report.cards, -2 ^ 31 ≤ card.card ∧ card.card < 2 ^ 31 := by
  intro card hcard
  have hlisted : card.card ∈ listedIds report.list := by
    rw [← report.listed]
    exact List.mem_map_of_mem hcard
  exact listedIds_bounds hlisted

/-- The first chip of a card, as a device. -/
structure FirstChip (report : CardReport) (device : Device) : Prop where
  some_chip : 1 ≤ report.chips
  kind : device.kind = .ascend
  id : device.id = Legacy.toU32 report.card
  visible : device.visible = toString report.card
  npu : device.npu = some (Legacy.toU32 report.card)
  chip : device.chip = some 0

/-- What was asked, and found, for a card. -/
def FoundAt (card : Int) (device : Device) (own : Asked) : Prop :=
  ∃ report : CardReport, report.card = card ∧ own = report.calls ∧ FirstChip report device

theorem Legacy.discoverOne_wp (card : Int) :
    wp (Spec.oracle Unit ω) (Legacy.discoverOne card) (fun _ r tr' =>
      ∀ device, r = .ok device → ∃ own, tr' = tr ++ own ∧ FoundAt card device own) () tr := by
  rw [Legacy.discoverOne, wp_bind]
  apply wp_invoke
  · intro count _
    rw [andThen_ok]
    dsimp only
    rw [wp_bind, wp_ensure]
    refine ⟨fun hcount => ?_, fun _ => by rintro _ ⟨⟩⟩
    rw [andThen_ok, wp_bind]
    apply wp_invoke
    · intro info _
      rw [andThen_ok, wp_bind, wp_lift]
      cases chipName (buffer info 32 0) with
      | error e =>
          rintro _ ⟨⟩
      | ok name =>
          rintro _ ⟨⟩
          refine ⟨CardReport.calls ⟨card, count, info⟩, ?_, ⟨card, count, info⟩, rfl, rfl, ?_⟩
          · rw [List.append_assoc]
            rfl
          · exact ⟨hcount.1, rfl, rfl, rfl, rfl, rfl⟩
    · rintro e tr' _ ⟨⟩
  · rintro e tr' _ ⟨⟩

/-- The cards, with what was found for each. -/
theorem reports_of_each {cards : List Int} {devices : List Device} {own : Asked}
    (h : Each FoundAt cards devices own) :
    ∃ reports : List CardReport, reports.map (·.card) = cards ∧
      own = reports.flatMap CardReport.calls ∧ List.Forall₂ FirstChip reports devices := by
  induction h with
  | nil => exact ⟨[], rfl, rfl, .nil⟩
  | cons head tail ih =>
      obtain ⟨report, rfl, rfl, hchip⟩ := head
      obtain ⟨reports, rfl, rfl, hreports⟩ := ih
      exact ⟨report :: reports, rfl, rfl, .cons hchip hreports⟩

theorem Legacy.discover_wp :
    wp (Spec.oracle Unit ω) Legacy.discover (fun _ r tr' =>
      ∀ devices, r = .ok devices → ∃ report : LegacyReport, tr' = tr ++ report.calls ∧
        List.Forall₂ FirstChip report.cards devices ∧ (devices.map Device.key).Nodup) () tr := by
  rw [Legacy.discover, wp_bind, Legacy.cardIds, wp_bind]
  apply wp_invoke
  · intro list _
    rw [andThen_ok]
    apply counted_wp
    · rw [andThen_ok, wp_bind]
      apply wp_mono (wp_each fun card _ tr => Legacy.discoverOne_wp card)
      rintro _ (e | devices) tr' hfound
      · rintro _ ⟨⟩
      · obtain ⟨own, rfl, heach⟩ := hfound devices rfl
        obtain ⟨reports, hcards, rfl, hchips⟩ := reports_of_each heach
        intro ds hds
        obtain ⟨rfl, -, hkeys⟩ := validate_eq_ok.mp hds
        refine ⟨⟨list, reports, hcards⟩, ?_, hchips, hkeys⟩
        rw [List.append_assoc]
        rfl
    · rintro e _ ⟨⟩
  · rintro e tr' _ ⟨⟩

/-! ## When that is all -/

theorem Legacy.toU32_of_nonneg {card : Int} (hnonneg : 0 ≤ card) (hlt : card < 2 ^ 31) :
    (Legacy.toU32 card : Int) = card := by
  rw [Legacy.toU32]
  omega

/-- A negative id becomes one that is too large. -/
theorem Legacy.toU32_of_neg {card : Int} (hneg : card < 0) (hle : -2 ^ 31 ≤ card) :
    2 ^ 31 ≤ (Legacy.toU32 card : Int) := by
  rw [Legacy.toU32]
  omega

/-- As many chips as cards: each card has one. -/
theorem chips_eq_one {reports : List CardReport} (h : ∀ report ∈ reports, 1 ≤ report.chips) :
    (reports.length : Int) ≤ totalChips reports ∧
      ((reports.length : Int) = totalChips reports →
        ∀ report ∈ reports, report.chips = 1) := by
  induction reports with
  | nil => simp [totalChips]
  | cons report reports ih =>
      rw [List.forall_mem_cons] at h
      obtain ⟨hle, hone⟩ := ih h.2
      rw [totalChips, List.length_cons, List.forall_mem_cons]
      have hchips := h.1
      constructor
      · omega
      · intro hsum
        constructor
        · omega
        · apply hone
          omega

theorem totalChips_of_one {reports : List CardReport} (h : ∀ report ∈ reports, report.chips = 1) :
    totalChips reports = (reports.length : Int) := by
  induction reports with
  | nil => rfl
  | cons report reports ih =>
      rw [List.forall_mem_cons] at h
      have hchips := h.1
      have htotal := ih h.2
      rw [totalChips, List.length_cons]
      omega

/-- The calls of a status query: the health, and then the processes. -/
def Queried (tr : Asked) (health processes : String) (address : List Int) (tr' : Asked) : Prop :=
  ∃ answer rest, tr' = tr ++ asked health address .uint answer :: rest ∧
    (answer.code = 0 → answer.out = some 0 →
      ∃ answer', rest = [asked processes address .int answer'])

theorem dcmiStatus_queried {health processes : String} {address : List Int} {initial : Int32} :
    wp (Spec.oracle Unit ω) (dcmiStatus health processes address initial)
      (fun _ _ tr' => Queried tr health processes address tr') () tr := by
  -- Without a good health nothing more is asked.
  have hdone : ∀ answer, ¬ (answer.code = 0 ∧ answer.out = some 0) →
      Queried tr health processes address (tr ++ [asked health address .uint answer]) := by
    intro answer hbad
    exact ⟨answer, [], rfl, fun hcode hzero => absurd ⟨hcode, hzero⟩ hbad⟩
  rw [dcmiStatus, wp_bind]
  apply wp_invoke_asked
  · intro out
    rw [andThen_ok]
    dsimp only
    rw [wp_bind, wp_ensure]
    constructor
    · intro _
      rw [andThen_ok]
      split
      · rename_i hunhealthy
        apply hdone
        rintro ⟨-, hzero⟩
        exact hunhealthy (congrArg (Option.getD · cUintMax) hzero)
      -- A healthy chip is asked for its processes, whatever the answer.
      · have hasked : ∀ answer', Queried tr health processes address
            (tr ++ [asked health address .uint ⟨0, out⟩] ++
              [asked processes address .int answer']) := by
          intro answer'
          exact ⟨⟨0, out⟩, [asked processes address .int answer'],
            List.append_assoc _ _ _, fun _ _ => ⟨answer', rfl⟩⟩
        rw [wp_bind]
        apply wp_withContext
        apply wp_invoke_asked
        · intro count
          constructor
          · rintro a ⟨⟩
            rw [andThen_ok, wp_bind, wp_ensure]
            exact ⟨fun _ => hasked _, fun _ => hasked _⟩
          · rintro e ⟨⟩
        · intro answer' e _
          constructor
          · rintro a ⟨⟩
          · intro e' _
            exact hasked answer'
    · intro hmissing
      apply hdone
      rintro ⟨-, hzero⟩
      change out = some 0 at hzero
      rw [hzero] at hmissing
      exact hmissing (by decide)
  · intro answer e hcode
    apply hdone
    rintro ⟨hzero, -⟩
    exact hcode hzero

/-- The status query of a first chip is about that chip. -/
theorem FirstChip.asksAbout {report : CardReport} {device : Device} (h : FirstChip report device)
    (hnonneg : 0 ≤ report.card) (hlt : report.card < 2 ^ 31) :
    AsksAbout device report.card 0 := by
  intro ω tr
  have hcard : (Legacy.toU32 report.card : Int) = report.card :=
    Legacy.toU32_of_nonneg hnonneg hlt
  have hrange : Legacy.toU32 report.card < 2 ^ 31 := by omega
  show Queried tr "dcmi_get_device_health" "dcmi_get_device_resource_info" [report.card, 0] _
  have hrun : wp (Spec.oracle Unit ω) (Legacy.status device) (fun _ _ tr' =>
      Queried tr "dcmi_get_device_health" "dcmi_get_device_resource_info" [report.card, 0] tr')
      () tr := by
    rw [Legacy.status, h.npu, h.chip, Option.getD_some, Option.getD_some, wp_bind, toCInt, wp_bind,
      wp_ensure]
    refine ⟨fun _ => ?_, fun hlarge => absurd hrange hlarge⟩
    rw [andThen_ok, wp_pure, andThen_ok, wp_bind, toCInt, wp_bind, wp_ensure]
    refine ⟨fun _ => ?_, fun hlarge => absurd (by decide) hlarge⟩
    rw [andThen_ok, wp_pure, andThen_ok, hcard]
    exact dcmiStatus_queried
  exact wp_oracle.mp hrun

/-- The devices cover the cards exactly if each card has one chip and an id that is one. -/
theorem covers_iff {cards : List CardReport} {devices : List Device}
    (hchips : List.Forall₂ FirstChip cards devices) (hkeys : (devices.map Device.key).Nodup)
    (hbounds : ∀ report ∈ cards, -2 ^ 31 ≤ report.card ∧ report.card < 2 ^ 31) :
    Covers cards devices ↔ ∀ report ∈ cards, report.chips = 1 ∧ 0 ≤ report.card := by
  have hpairs : ∀ report ∈ cards, ∃ device ∈ devices, FirstChip report device :=
    fun report hreport => exists_of_mem_left hchips hreport
  have hpairs' : ∀ device ∈ devices, ∃ report ∈ cards, FirstChip report device :=
    fun device hdevice => exists_of_mem_right hchips hdevice
  have hsome : ∀ report ∈ cards, 1 ≤ report.chips := by
    intro report hreport
    obtain ⟨device, -, hchip⟩ := hpairs report hreport
    exact hchip.some_chip
  constructor
  · intro hcovers report hreport
    constructor
    -- There are as many chips as devices, and as many devices as cards.
    · apply (chips_eq_one hsome).2 _ report hreport
      rw [hchips.length_eq]
      exact hcovers.length
    · obtain ⟨device, hdevice, hchip⟩ := hpairs report hreport
      obtain ⟨other, hother, -, hid⟩ := hcovers.ids device hdevice
      have hsmall := (hbounds other hother).2
      by_contra hneg
      -- As an unsigned number, a negative id is larger than any card id.
      have hlarge := Legacy.toU32_of_neg (Int.not_le.mp hneg) (hbounds report hreport).1
      rw [← hchip.id, hid] at hlarge
      omega
  · intro hcards
    constructor
    · rw [totalChips_of_one fun report hreport => (hcards report hreport).1, hchips.length_eq]
    · intro device hdevice
      obtain ⟨report, hreport, hchip⟩ := hpairs' device hdevice
      have hnonneg := (hcards report hreport).2
      refine ⟨report, hreport, hnonneg, ?_⟩
      rw [hchip.id]
      exact Legacy.toU32_of_nonneg hnonneg (hbounds report hreport).2
    · exact hkeys
    · intro report hreport chip hle hlt
      obtain ⟨hone, hnonneg⟩ := hcards report hreport
      obtain ⟨device, hdevice, hchip⟩ := hpairs report hreport
      obtain rfl : chip = 0 := by omega
      exact ⟨device, hdevice, hchip.asksAbout hnonneg (hbounds report hreport).2⟩

/-- A discovery that succeeds covers every chip exactly if every card that the library listed
    has one chip, and no negative id. -/
theorem legacy_covers_iff {devices : List Device}
    (h : ((Legacy.discover ()).run ω tr).value = .ok devices) :
    ∃ report : LegacyReport, ((Legacy.discover ()).run ω tr).trace = tr ++ report.calls ∧
      (Covers report.cards devices ↔ ∀ card ∈ report.cards, card.chips = 1 ∧ 0 ≤ card.card) := by
  have hrun : wp (Spec.oracle Unit ω) Legacy.discover _ () tr := Legacy.discover_wp
  obtain ⟨report, htrace, hchips, hkeys⟩ := wp_oracle.mp hrun devices h
  exact ⟨report, htrace, covers_iff hchips hkeys report.bounds⟩

/-! ## Two libraries -/

/-- A library with one card. -/
def oneCard (card chips : Int32) : Vendor := fun _ f =>
  match f with
  | ⟨_, _, .int⟩ => ⟨0, some chips⟩
  | ⟨_, _, .uint⟩ => ⟨0, some 0⟩
  | ⟨_, _, .bytes⟩ => ⟨0, fun i => some (if i = 0 then 57 else 0)⟩
  | ⟨_, _, .ints⟩ => ⟨0, (fun _ => some card, some 1)⟩
  | ⟨_, _, .uints⟩ => ⟨0, (fun _ => none, none)⟩

/-- What it reports. -/
def oneCardReport (card chips : Int32) : LegacyReport where
  list := (fun _ => some card, some 1)
  cards := [⟨card.toInt, some chips, fun i => some (if i = 0 then 57 else 0)⟩]
  listed := rfl

/-- One card with one chip is covered. -/
theorem oneChip_covered : ∃ report : LegacyReport,
    ((Legacy.discover ()).run (oneCard 3 1) []).trace = [] ++ report.calls ∧
      (Covers report.cards [⟨.ascend, 3, "9", "3", some 3, some 0⟩] ↔
        ∀ card ∈ report.cards, card.chips = 1 ∧ 0 ≤ card.card) :=
  legacy_covers_iff (by decide +kernel)

/-- The second chip of a card is not. -/
theorem twoChips_not_covered :
    ¬ ∀ (ω : Vendor) (tr : Asked) (devices : List Device) (report : LegacyReport),
      ((Legacy.discover ()).run ω tr).value = .ok devices →
        ((Legacy.discover ()).run ω tr).trace = tr ++ report.calls →
          Covers report.cards devices := by
  intro h
  have hcovers := h (oneCard 3 2) [] [⟨.ascend, 3, "9", "3", some 3, some 0⟩] (oneCardReport 3 2)
    (by decide +kernel) rfl
  exact absurd hcovers.length (by decide)

end Xlurm
