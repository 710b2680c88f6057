import Tslock.Core.CreateLockConfig
import Tslock.Foundation.IsoOrder
import Tslock.Foundation.Runs
import Tslock.IsoStores.DynamoDBAccessor
import Tslock.IsoStores.SearchLockAccessor

/-! When comparing deadlines as texts is comparing the instants. -/
namespace Tslock.IsoStores

open Foundation

/-- A reading of the years 1970 to 9999. -/
def InYears (now : ClockReading) : Prop := 0 ≤ now.ms ∧ now.ms < JsDate.yearTenThousand

instance (now : ClockReading) : Decidable (InYears now) := inferInstanceAs (Decidable (_ ∧ _))

/-- The instant is no date, or one before the year 10000. -/
def BeforeTenThousand (x : JsNumber) : Prop :=
  ∀ t, JsDate.ofNumber x = some t → t < JsDate.yearTenThousand

section Texts

variable {x : JsNumber} {q : ℚ} {t : ℤ} {text : String} {now : ClockReading}

theorem toIsoString_some (h : toIsoString x = some text) :
    ∃ t, JsDate.ofNumber x = some t ∧ JsDate.toIsoString t = some text :=
  Option.bind_eq_some_iff.mp h

theorem toList_of_toIsoString (h : JsDate.toIsoString t = some text) :
    text.toList = JsDate.isoText t := by
  unfold JsDate.toIsoString at h
  split_ifs at h
  rw [← Option.some.inj h, String.toList_ofList]

/-- Texts from the year 10000 on come before those of any clock. -/
theorem text_le_iff (htext : text.toList = JsDate.isoText t) (hnow : InYears now) :
    text ≤ now.toIsoString ↔ t ≤ now.ms ∨ JsDate.yearTenThousand ≤ t := by
  rw [String.le_iff_toList_le, htext, toList_of_toIsoString now.toIsoString_eq,
    JsDate.isoText_le_iff hnow.1 hnow.2]

theorem ofNumber_finite (h : JsDate.ofNumber (.finite q) = some t) :
    t = if 0 ≤ q then ⌊q⌋ else ⌈q⌉ := by
  simp only [JsDate.ofNumber] at h
  by_cases hrange : -8640000000000000 ≤ q ∧ q ≤ 8640000000000000
  · rw [if_pos hrange] at h
    exact (Option.some.inj h).symm
  · simp [hrange] at h

/-- For a clock from 1970 on it makes no difference that a date drops its fraction towards 0. -/
theorem floor_le_iff (h : JsDate.ofNumber (.finite q) = some t) {n : ℤ} (hn : 0 ≤ n) :
    ⌊q⌋ ≤ n ↔ t ≤ n := by
  rw [ofNumber_finite h]
  split_ifs with hq
  · exact Iff.rfl
  · have hfloor : ⌊q⌋ < 0 := Int.floor_lt.mpr (by push_cast; linarith)
    have hceil : ⌈q⌉ ≤ 0 := Int.ceil_le.mpr (by push_cast; linarith)
    exact iff_of_true (by omega) (by omega)

/-- The texts compare as the instants exactly where the deadline is before the year 10000. -/
theorem text_agrees_iff (h : toIsoString (.finite q) = some text) (hnow : InYears now) :
    (text ≤ now.toIsoString ↔ ⌊q⌋ ≤ now.ms) ↔ ⌊q⌋ < JsDate.yearTenThousand := by
  obtain ⟨t, ht, htext⟩ := toIsoString_some h
  have hlow := hnow.1
  have hhigh := hnow.2
  have hlast := floor_le_iff ht (show (0 : ℤ) ≤ JsDate.yearTenThousand - 1 by decide)
  rw [text_le_iff (toList_of_toIsoString htext) hnow, floor_le_iff ht hlow]
  omega

end Texts

/-- The record after a call still has its deadline, or has the text `written`. -/
def Writes (item : Option LockRecord) (record : LockRecord) (written : JsNumber) : Prop :=
  (∃ old, item = some old ∧ old.lockUntil = record.lockUntil) ∨
    toIsoString written = some record.lockUntil

/-- All that the runs below need to know of an accessor: which texts it stores, and what it compares
before it hands out a lock that has a record. -/
structure ComparesTexts (serve : Accessor) : Prop where
  writes : ∀ call item record, (serve call item).1 = some record → Writes item record call.written
  acquires : ∀ call record config, call.method = .lock →
    (serve call (some record)).2 = .handle config → record.lockUntil ≤ call.now.toIsoString

section Accessors

variable {hostname : String} {now : ClockReading} {config config' : LockConfiguration JsNumber}
  {item : Option LockRecord} {record : LockRecord} {previous : Option JsNumber}

theorem writes_unchanged {x : JsNumber} (h : item = some record) : Writes item record x :=
  .inl ⟨record, h, rfl⟩

namespace DynamoDBAccessor

theorem writes_setLockUntil {x : JsNumber} {text : String} (hx : toIsoString x = some text)
    (h : setLockUntil text item = some record) : Writes item record x := by
  obtain ⟨old, -, rfl⟩ := Option.map_eq_some_iff.mp h
  exact .inr hx

theorem writes_lock (h : (lock hostname now config item).1 = some record) :
    Writes item record config.lockAtMostUntil := by
  unfold lock at h
  split at h
  case h_1 => exact writes_unchanged h
  case h_2 text htext =>
    split_ifs at h
    · obtain rfl := Option.some.inj h
      exact .inr htext
    · exact writes_unchanged h

theorem writes_extend (h : (extend hostname now config previous item).1 = some record) :
    Writes item record config.lockAtMostUntil := by
  unfold extend at h
  split at h
  case h_1 => exact writes_unchanged h
  case h_2 =>
    split at h
    case h_1 text _ htext _ =>
      split_ifs at h
      · exact writes_setLockUntil htext h
      · exact writes_unchanged h
    case h_2 => exact writes_unchanged h

theorem writes_unlock (h : (unlock hostname now config item).1 = some record) :
    Writes item record (config.unlockTime now.toNumber) := by
  unfold unlock at h
  split at h
  case h_1 text _ htext _ =>
    split_ifs at h
    · exact writes_setLockUntil htext h
    · exact writes_unchanged h
  case h_2 => exact writes_unchanged h

theorem acquires_lock (h : (lock hostname now config (some record)).2 = .handle config') :
    record.lockUntil ≤ now.toIsoString := by
  unfold lock at h
  split at h
  case h_1 => simp at h
  case h_2 =>
    split_ifs at h with hcondition
    exact hcondition

theorem comparesTexts : ComparesTexts serve := by
  constructor
  · rintro ⟨method, config, hostname, now⟩ item record h
    cases method with
    | lock => exact writes_lock h
    | extend previous => exact writes_extend h
    | unlock => exact writes_unlock h
  · rintro ⟨method, config, hostname, now⟩ record config' rfl h
    exact acquires_lock h

end DynamoDBAccessor

namespace SearchLockAccessor

theorem writes_update {matched : LockRecord → Prop} [DecidablePred matched]
    {set : LockRecord → LockRecord} {upsert : Option LockRecord} {x : JsNumber}
    (hset : ∀ source, toIsoString x = some (set source).lockUntil)
    (hupsert : ∀ document, upsert = some document → toIsoString x = some document.lockUntil)
    (h : (update matched set upsert item).1 = some record) : Writes item record x := by
  unfold update at h
  split at h
  case h_1 =>
    split at h
    case h_1 document =>
      obtain rfl := Option.some.inj h
      exact .inr (hupsert _ rfl)
    case h_2 => simp at h
  case h_2 source =>
    split_ifs at h
    · obtain rfl := Option.some.inj h
      exact .inr (hset source)
    · exact writes_unchanged h

theorem writes_lock (h : (lock hostname now config item).1 = some record) :
    Writes item record config.lockAtMostUntil := by
  unfold lock at h
  split at h
  case h_1 => exact writes_unchanged h
  case h_2 text htext =>
    refine writes_update (fun _ => htext) ?_ h
    rintro document ⟨rfl⟩
    exact htext

theorem writes_extend (h : (extend hostname now config previous item).1 = some record) :
    Writes item record config.lockAtMostUntil := by
  unfold extend at h
  split at h
  case h_1 => exact writes_unchanged h
  case h_2 =>
    split at h
    case h_1 text _ htext _ => exact writes_update (fun _ => htext) (by simp) h
    case h_2 => exact writes_unchanged h

theorem writes_unlock (h : (unlock hostname now config item).1 = some record) :
    Writes item record (config.unlockTime now.toNumber) := by
  unfold unlock at h
  split at h
  case h_1 text _ htext _ => exact writes_update (fun _ => htext) (by simp) h
  case h_2 => exact writes_unchanged h

theorem acquires_lock (h : (lock hostname now config (some record)).2 = .handle config') :
    record.lockUntil ≤ now.toIsoString := by
  unfold lock at h
  split at h
  case h_1 => simp at h
  case h_2 =>
    simp only [update] at h
    split_ifs at h with hmatches
    · exact hmatches
    · simp [replyOf] at h

theorem comparesTexts : ComparesTexts serve := by
  constructor
  · rintro ⟨method, config, hostname, now⟩ item record h
    cases method with
    | lock => exact writes_lock h
    | extend previous => exact writes_extend h
    | unlock => exact writes_unlock h
  · rintro ⟨method, config, hostname, now⟩ record config' rfl h
    exact acquires_lock h

end SearchLockAccessor

end Accessors

/-- The records of all locks, by name. -/
abbrev Records := String → Option LockRecord

inductive Step (serve : Accessor) : Records → Call → Records → Prop where
  | served {records : Records} {call : Call} :
      Step serve records call (Function.update records call.config.name
        (serve call (records call.config.name)).1)
  | failed {records : Records} {call : Call} : Step serve records call records

/-- Calls by any clients, at any readings of their clocks, in any order; some fail on the way. -/
def system (serve : Accessor) : TransitionSystem Records Call where
  Initial records := ∀ name, records name = none
  Step := Step serve

/-- The runs whose calls write no instant from the year 10000 on. -/
def earlySystem (serve : Accessor) : TransitionSystem Records Call :=
  (system serve).guarded fun _ call => BeforeTenThousand call.written

section Runs

variable {serve : Accessor} {records records' : Records} {call : Call} {name : String}
  {record : LockRecord} {config : LockConfiguration JsNumber}

/-- Every stored text is that of an instant before the year 10000. -/
def Early (records : Records) : Prop := ∀ name record, records name = some record →
  ∃ t, JsDate.toIsoString t = some record.lockUntil ∧ t < JsDate.yearTenThousand

theorem early_step (hserve : ComparesTexts serve)
    (h : (earlySystem serve).Step records call records') (hi : Early records) : Early records' := by
  obtain ⟨hstep, hearly⟩ := h
  cases hstep with
  | failed => exact hi
  | served =>
    intro name record hrecord
    by_cases hname : name = call.config.name
    · subst hname
      rw [Function.update_self] at hrecord
      rcases hserve.writes _ _ _ hrecord with ⟨old, hold, hsame⟩ | hwritten
      · rw [← hsame]
        exact hi _ _ hold
      · obtain ⟨t, ht, htext⟩ := toIsoString_some hwritten
        exact ⟨t, htext, hearly t ht⟩
    · rw [Function.update_of_ne hname] at hrecord
      exact hi _ _ hrecord

theorem early_reachable (hserve : ComparesTexts serve) (h : (earlySystem serve).Reachable records) :
    Early records := by
  refine h.invariant ?_ fun s a t _ hs hi => early_step hserve hs hi
  intro s hinit name record hrecord
  rw [hinit name] at hrecord
  simp at hrecord

/-- A lock that has a record is only acquired when the instant stored in it has come. -/
theorem ended_of_acquired (hserve : ComparesTexts serve)
    (h : (earlySystem serve).Reachable records) (hrecord : records name = some record)
    (hmethod : call.method = .lock) (hnow : InYears call.now)
    (hacquired : (serve call (some record)).2 = .handle config) :
    ∃ t, JsDate.parse record.lockUntil = some t ∧ t ≤ call.now.ms := by
  obtain ⟨t, htext, hearly⟩ := early_reachable hserve h name record hrecord
  have hle := hserve.acquires call record config hmethod hacquired
  refine ⟨t, JsDate.parse_toIsoString htext, ?_⟩
  rcases (text_le_iff (toList_of_toIsoString htext) hnow).mp hle with hcome | hlate
  · exact hcome
  · omega

/-- Both conditions agree with the instants exactly for a deadline before the year 10000; and where
the calls of a run write no later ones, a lock is acquired only when its stored lease has ended. -/
theorem conditions_agree_iff {most least : DurationInput} {createdAt now : ClockReading} {q : ℚ}
    {lockUntil : String} (_ : createLockConfig name most least createdAt.toNumber = .ok config)
    (_ : config.lockAtMostUntil = .finite q) (htext : toIsoString (.finite q) = some lockUntil)
    (hnow : InYears now) (lockedAt lockedBy : String) :
    (((DynamoDBAccessor.lockCondition now.toIsoString (some ⟨lockUntil, lockedAt, lockedBy⟩) ↔
        ⌊q⌋ ≤ now.ms) ↔ ⌊q⌋ < JsDate.yearTenThousand) ∧
      ((SearchLockAccessor.lockMatches now.toIsoString ⟨lockUntil, lockedAt, lockedBy⟩ ↔
        ⌊q⌋ ≤ now.ms) ↔ ⌊q⌋ < JsDate.yearTenThousand)) ∧
    ∀ serve ∈ [DynamoDBAccessor.serve, SearchLockAccessor.serve],
      ∀ records name record call config, (earlySystem serve).Reachable records →
        records name = some record → call.method = .lock → InYears call.now →
        (serve call (some record)).2 = .handle config →
        ∃ t, JsDate.parse record.lockUntil = some t ∧ t ≤ call.now.ms := by
  constructor
  · exact ⟨text_agrees_iff htext hnow, text_agrees_iff htext hnow⟩
  · intro serve hserve records name record call config hreach hrecord hmethod hnow hacquired
    have hcompares : ComparesTexts serve := by
      rcases List.mem_cons.mp hserve with rfl | hserve
      · exact DynamoDBAccessor.comparesTexts
      · obtain rfl := List.mem_singleton.mp hserve
        exact SearchLockAccessor.comparesTexts
    exact ended_of_acquired hcompares hreach hrecord hmethod hnow hacquired

end Runs

section Millennia

/-- January 1, 2025. -/
def newYear : ClockReading := ⟨1735689600000, by decide⟩

/-- A minute later. -/
def minuteLater : ClockReading := ⟨1735689660000, by decide⟩

def report : LockConfiguration JsNumber :=
  ⟨"report", .finite 60000, .finite 0, newYear.toNumber⟩

theorem report_created : createLockConfig "report" (.string "1m") (.number (.finite 0))
    newYear.toNumber = .ok report := by decide +kernel

def reportCall : Call := ⟨.lock, report, "a", newYear⟩

def reportRecord : LockRecord :=
  ⟨"2025-01-01T00:01:00.000Z", "2025-01-01T00:00:00.000Z", "a"⟩

def reportRecords : Records := Function.update (fun _ => none) "report" (some reportRecord)

theorem report_reachable : (earlySystem DynamoDBAccessor.serve).Reachable reportRecords := by
  have hwritten : JsDate.ofNumber reportCall.written = some 1735689660000 := by decide +kernel
  have hserved : (DynamoDBAccessor.serve reportCall none).1 = some reportRecord := by
    decide +kernel
  have hstep : (system DynamoDBAccessor.serve).Step (fun _ => none) reportCall reportRecords := by
    unfold reportRecords
    rw [← hserved]
    exact Step.served
  have hempty : (earlySystem DynamoDBAccessor.serve).Reachable fun _ => none :=
    .initial fun _ => rfl
  refine hempty.step ⟨hstep, ?_⟩
  intro t ht
  obtain rfl := Option.some.inj (hwritten.symm.trans ht)
  decide

/-- The lock of a minute, and its acquisition by another host when the minute is over. -/
theorem report_ended :
    (DynamoDBAccessor.lockCondition minuteLater.toIsoString (some reportRecord) ↔
      ⌊(1735689660000 : ℚ)⌋ ≤ minuteLater.ms) ∧
    ∃ t, JsDate.parse reportRecord.lockUntil = some t ∧ t ≤ minuteLater.ms := by
  have huntil : report.lockAtMostUntil = .finite 1735689660000 := by decide +kernel
  have htext : toIsoString (.finite 1735689660000) = some reportRecord.lockUntil := by
    decide +kernel
  have hnow : InYears minuteLater := by decide
  obtain ⟨⟨hagree, -⟩, hruns⟩ := conditions_agree_iff report_created huntil htext hnow
    reportRecord.lockedAt reportRecord.lockedBy
  constructor
  · exact hagree.mpr (by decide +kernel)
  · exact hruns DynamoDBAccessor.serve (by simp) reportRecords "report" reportRecord
      ⟨.lock, report, "b", minuteLater⟩ report report_reachable (Function.update_self _ _ _) rfl
      hnow (by decide +kernel)

/-- Ten thousand years. -/
def eternal : LockConfiguration JsNumber :=
  ⟨"eternal", .finite 315569520000000, .finite 0, newYear.toNumber⟩

def eternalRecord (hostname : String) : LockRecord :=
  ⟨"+012025-01-01T00:00:00.000Z", "2025-01-01T00:00:00.000Z", hostname⟩

/-- The lease of ten thousand years is free for any other host at once. -/
theorem eternal_taken :
    createLockConfig "eternal" (.string "3652425d") (.number (.finite 0)) newYear.toNumber =
      .ok eternal ∧
    DynamoDBAccessor.lock "a" newYear eternal none =
      (some (eternalRecord "a"), .handle eternal) ∧
    DynamoDBAccessor.lock "b" newYear eternal (some (eternalRecord "a")) =
      (some (eternalRecord "b"), .handle eternal) ∧
    SearchLockAccessor.lock "a" newYear eternal none =
      (some (eternalRecord "a"), .handle eternal) ∧
    SearchLockAccessor.lock "b" newYear eternal (some (eternalRecord "a")) =
      (some (eternalRecord "b"), .handle eternal) ∧
    eternal.lockAtMostUntil = .finite 317305209600000 ∧ newYear.ms < 317305209600000 := by
  decide +kernel

end Millennia

end Tslock.IsoStores
