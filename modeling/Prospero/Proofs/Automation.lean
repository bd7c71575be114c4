import Prospero.AutomationEngine

namespace Prospero.Proofs.Automations
open Prospero.Automations

section Rules

variable {σ : Type} {crates : Crates σ}

/-- What the engine counts on: a tick before an instant is one of its schedule's,
which are whole seconds, and reading a stamp gives its instant back. -/
structure Reliable (crates : Crates σ) : Prop where
  before : ∀ schedule now tick, crates.before schedule now = some tick →
    crates.includes schedule tick = true ∧ tick.nanosecond = 0
  stamped : ∀ t, crates.parseFromRfc3339 (stamp t) = some t.wholeSecond

/-- The times in an automation are stamps, and it has not fired before it was
created. -/
structure Stamped (a : Automation) : Prop where
  created : ∃ c, a.createdAt = stamp c
  fired : ∀ last, a.lastFiredAt = some last → (∃ c, last = stamp c) ∧ a.createdAt < last

/-- The time after which an automation owes a tick. -/
def anchor (a : Automation) : String := a.lastFiredAt.getD a.createdAt

theorem Stamped.anchor {a : Automation} (h : Stamped a) :
    (∃ c, anchor a = stamp c) ∧ a.createdAt ≤ anchor a := by
  unfold Automations.anchor
  cases hlast : a.lastFiredAt with
  | none => exact ⟨h.created, le_rfl⟩
  | some last => exact ⟨(h.fired last hlast).1, (h.fired last hlast).2.le⟩

/-- The tick is one of the automation's schedule. -/
def IsTick (crates : Crates σ) (a : Automation) (tick : DateTime) : Prop :=
  ∃ schedule parsed, a.trigger = .cron schedule ∧ parseSchedule crates schedule = .ok parsed ∧
    crates.includes parsed tick = true

theorem dueFire_eq {schedule : String} {since now tick : DateTime}
    (h : dueFire crates schedule since now = some tick) :
    ∃ parsed, parseSchedule crates schedule = .ok parsed ∧
      crates.before parsed now = some tick ∧ since < tick := by
  unfold dueFire at h
  split at h
  · cases h
  · rename_i parsed hparse
    obtain ⟨hbefore, hlt⟩ := Option.filter_eq_some_iff.mp h
    exact ⟨parsed, hparse, hbefore, of_decide_eq_true hlt⟩

/-- An owed tick is one of the schedule, and its stamp comes after the anchor. -/
theorem dueTick_eq (hr : Reliable crates) {stored : StoredAutomation} {now : DateTime}
    {fireAt : String} (hs : Stamped stored.automation)
    (h : dueTick crates stored now = some fireAt) :
    ∃ tick, fireAt = stamp tick ∧ IsTick crates stored.automation tick ∧
      anchor stored.automation < fireAt := by
  simp only [dueTick] at h
  split at h
  · rename_i schedule _ htrigger
    obtain ⟨⟨c, hc⟩, -⟩ := hs.anchor
    rw [show stored.automation.lastFiredAt.getD stored.automation.createdAt = stamp c from hc,
      hr.stamped] at h
    obtain ⟨tick, hdue, rfl⟩ := Option.map_eq_some_iff.mp h
    obtain ⟨parsed, hparse, hbefore, hlt⟩ := dueFire_eq hdue
    obtain ⟨hin, hwhole⟩ := hr.before parsed now tick hbefore
    refine ⟨tick, rfl, ⟨schedule, parsed, htrigger, hparse, hin⟩, ?_⟩
    rw [hc, stamp_lt, DateTime.wholeSecond_eq hwhole]
    exact hlt
  · cases h

end Rules

section Table

/-- The row of an id. -/
def rowOf (rows : Rows) (id : String) : Option Row := (rows.lookup id).map Subtype.val

variable {rows rows' : Rows} {stored : StoredAutomation} {row : Row} {id other fireAt : String}

theorem rowOf_insert {entry : { row : Row // row.spec.id = id }} :
    rowOf (rows.insert id entry) other = if other = id then some entry.1 else rowOf rows other := by
  unfold rowOf
  split
  · rename_i heq
    subst heq
    rw [AList.lookup_insert]
    rfl
  · rename_i hne
    rw [AList.lookup_insert_ne hne]

theorem rowOf_erase :
    rowOf (rows.erase id) other = if other = id then none else rowOf rows other := by
  unfold rowOf
  split
  · rename_i heq
    subst heq
    rw [AList.lookup_erase]
    rfl
  · rename_i hne
    rw [AList.lookup_erase_ne hne]

theorem rowOf_upsert : rowOf (rows.upsertAutomation stored) other =
    if other = stored.automation.id then
      some ⟨encodeSpec stored, stored.webhookSecret, (rowOf rows other).bind Row.lastFiredAt⟩
    else rowOf rows other := by
  rw [Rows.upsertAutomation, rowOf_insert]
  split
  · rename_i heq
    subst heq
    simp only [rowOf, Option.bind_map]
    rfl
  · rfl

/-- A claim moves the one row whose last fire comes before it, or the first. -/
theorem claim_eq (h : rows.claimAutomationFire id fireAt = some rows') :
    ∃ row, rowOf rows id = some row ∧ (∀ last, row.lastFiredAt = some last → last < fireAt) ∧
      ∀ other, rowOf rows' other =
        if other = id then some { row with lastFiredAt := some fireAt } else rowOf rows other := by
  unfold Rows.claimAutomationFire at h
  split at h
  · cases h
  · rename_i row hid hlookup
    split at h <;> cases h
    rename_i hbefore
    refine ⟨row, by rw [rowOf, hlookup]; rfl, ?_, fun other => rowOf_insert⟩
    intro last hlast
    rw [Row.isBefore, hlast] at hbefore
    exact of_decide_eq_true hbefore

theorem mem_listAutomations (h : stored ∈ rows.listAutomations) :
    ∃ row, rowOf rows stored.automation.id = some row ∧ stored = decodeAutomation row := by
  obtain ⟨⟨key, row, hid⟩, hentry, rfl⟩ := List.mem_map.mp h
  subst hid
  have hmem := AList.mem_lookup_iff.mpr (List.mem_insertionSort _ |>.mp hentry)
  exact ⟨row, congrArg (Option.map Subtype.val) hmem, rfl⟩

theorem find_automation (h : automation rows id = .ok stored) :
    ∃ row, rowOf rows stored.automation.id = some row ∧ stored = decodeAutomation row := by
  unfold automation at h
  split at h <;> cases h
  exact mem_listAutomations (List.mem_of_find?_eq_some ‹_›)

end Table

section Hourly

def readStamp (s : String) : Option DateTime :=
  match FixedWidth.scan stampLayout s.toList with
  | some [year, month, day, hour, minute, second] =>
    if h : year ≤ 9999 ∧ 1 ≤ month ∧ month ≤ 12 ∧ 1 ≤ day ∧ day ≤ daysIn year month ∧
        hour < 24 ∧ minute < 60 ∧ second < 60 ∧ 0 < 1000000000 then
      some ⟨year, month, day, hour, minute, second, 0, h⟩
    else none
  | _ => none

theorem readStamp_stamp (t : DateTime) : readStamp (stamp t) = some t.wholeSecond := by
  unfold readStamp stamp
  rw [String.toList_ofList, FixedWidth.scan_render t.civil_fits]
  exact dif_pos t.wholeSecond.valid

def topOfHour (t : DateTime) : DateTime :=
  { t with
    minute := 0
    second := 0
    nanosecond := 0
    valid := by
      have h := t.valid
      omega }

/-- The crates as they are for an hourly schedule and one task. -/
def hourly : Crates Unit where
  scheduleFromStr _ := .ok ()
  before _ now := some (topOfHour now)
  includes _ t := t.minute = 0 && t.second = 0 && t.nanosecond = 0
  parseFromRfc3339 := readStamp
  jsonFromSlice _ := .error "EOF while parsing a value at line 1 column 0"
  jsonToString _ := "null"
  hexDecode _ := none
  hexEncode bytes := String.ofList (bytes.flatMap fun b =>
    [Nat.digitChar (b.toNat / 16), Nat.digitChar (b.toNat % 16)])
  hmacVerify _ _ _ := false
  sha256 _ := [
    0x70, 0x15, 0xd0, 0xc9, 0x66, 0x20, 0xbf, 0x42, 0x6d, 0x51, 0xf0,
    0x3f, 0x95, 0x39, 0xcb, 0x16, 0xe3, 0xce, 0x45, 0x80, 0x52, 0x1a,
    0x27, 0xcf, 0x9f, 0x03, 0x20, 0x18, 0x7b, 0xd7, 0x92, 0xe5]

theorem hourly_reliable : Reliable hourly := by
  constructor
  · rintro schedule now tick h
    cases h
    exact ⟨rfl, rfl⟩
  · intro t
    simp only [hourly, readStamp_stamp]

def sweep : CreateAutomationBody where
  id := "sweep"
  workspace := "ws"
  trigger := .cron "0 * * * *"
  template := ⟨"sweep", none, none, none, none, none, none, true, .supervised⟩
  enabled := true

/-- A time of one day, read round the clock. -/
def clock (hour minute second : Nat) : DateTime :=
  ⟨2026, 9, 20, hour % 24, minute % 60, second % 60, 0, by simp [daysIn, Nat.mod_lt]⟩

end Hourly

end Prospero.Proofs.Automations
