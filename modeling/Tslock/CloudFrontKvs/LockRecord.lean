import Tslock.Foundation.JsDate
import Tslock.Foundation.JsonString

/-! `lock-record.ts`: the text a record is stored as, and what is read back from it. -/
namespace Tslock.CloudFrontKvs

open Foundation

structure CloudFrontKvsLockRecord where
  lockUntil : String
  lockedAt : String
  lockedBy : String
deriving DecidableEq, Repr

def encodeLockRecord (record : CloudFrontKvsLockRecord) : String :=
  Json.stringify [("lockUntil", record.lockUntil), ("lockedAt", record.lockedAt),
    ("lockedBy", record.lockedBy)]

/-- Of two members with one key the later one counts. -/
def member (fields : List (String × JsonValue)) (key : String) : Option JsonValue :=
  fields.reverse.lookup key

def decodeLockRecord (json : Json.Reader) (value : String) :
    Except String CloudFrontKvsLockRecord :=
  match json.parse value with
  | none => .error "Corrupted lock record: invalid JSON"
  | some (.object obj) =>
    match member obj "lockUntil", member obj "lockedAt", member obj "lockedBy" with
    | some (.string lockUntil), some (.string lockedAt), some (.string lockedBy) =>
      if JsDate.parse lockUntil = none ∨ JsDate.parse lockedAt = none then
        .error "Corrupted lock record: unparseable timestamps"
      else .ok { lockUntil, lockedAt, lockedBy }
    | _, _, _ => .error "Corrupted lock record: missing lockUntil, lockedAt, or lockedBy"
  -- an array is an object without these members
  | some (.array _) => .error "Corrupted lock record: missing lockUntil, lockedAt, or lockedBy"
  | some _ => .error "Corrupted lock record: expected object"

/-- `toISOString` throws for an instant that is not a date. -/
def buildLockRecord (lockUntilMs lockedAtMs : ℤ) (lockedBy : String) :
    Option CloudFrontKvsLockRecord := do
  let lockUntil ← JsDate.toIsoString lockUntilMs
  let lockedAt ← JsDate.toIsoString lockedAtMs
  return { lockUntil, lockedAt, lockedBy }

/-- `none` stands for `NaN`. -/
def parseLockUntilMs (record : CloudFrontKvsLockRecord) : Option ℤ := JsDate.parse record.lockUntil

variable {json : Json.Reader} {record : CloudFrontKvsLockRecord} {lockUntilMs lockedAtMs : ℤ}
  {lockedBy : String}

theorem encodeLockRecord_injective : Function.Injective encodeLockRecord := by
  rintro ⟨u, a, b⟩ ⟨u', a', b'⟩ h
  have hfields := Json.stringify_injective h
  simp only [List.cons.injEq, Prod.mk.injEq, true_and, and_true] at hfields
  obtain ⟨rfl, rfl, rfl⟩ := hfields
  rfl

theorem decode_encode (hu : JsDate.parse record.lockUntil ≠ none)
    (ha : JsDate.parse record.lockedAt ≠ none) :
    decodeLockRecord json (encodeLockRecord record) = .ok record := by
  let fields : List (String × JsonValue) := [("lockUntil", .string record.lockUntil),
    ("lockedAt", .string record.lockedAt), ("lockedBy", .string record.lockedBy)]
  have hparse : json.parse (encodeLockRecord record) = some (.object fields) :=
    json.parse_stringify _
  have hu' : member fields "lockUntil" = some (.string record.lockUntil) := rfl
  have ha' : member fields "lockedAt" = some (.string record.lockedAt) := rfl
  have hb' : member fields "lockedBy" = some (.string record.lockedBy) := rfl
  simp only [decodeLockRecord, hparse, hu', ha', hb', hu, ha, or_self, if_false]

theorem build_dates (h : buildLockRecord lockUntilMs lockedAtMs lockedBy = some record) :
    JsDate.toIsoString lockUntilMs = some record.lockUntil ∧
      JsDate.toIsoString lockedAtMs = some record.lockedAt := by
  obtain ⟨lockUntil, hu, hrest⟩ := Option.bind_eq_some_iff.mp h
  obtain ⟨lockedAt, ha, hrecord⟩ := Option.bind_eq_some_iff.mp hrest
  cases hrecord
  exact ⟨hu, ha⟩

theorem parseLockUntilMs_build (h : buildLockRecord lockUntilMs lockedAtMs lockedBy = some record) :
    parseLockUntilMs record = some lockUntilMs :=
  JsDate.parse_toIsoString (build_dates h).1

/-- A record the provider builds is read back as it was. -/
theorem decode_build (h : buildLockRecord lockUntilMs lockedAtMs lockedBy = some record) :
    decodeLockRecord json (encodeLockRecord record) = .ok record := by
  obtain ⟨hu, ha⟩ := build_dates h
  refine decode_encode ?_ ?_
  · rw [JsDate.parse_toIsoString hu]
    exact Option.some_ne_none _
  · rw [JsDate.parse_toIsoString ha]
    exact Option.some_ne_none _

end Tslock.CloudFrontKvs
