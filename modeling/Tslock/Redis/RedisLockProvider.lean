import Tslock.Core.LockConfiguration
import Tslock.Core.Utils
import Tslock.Foundation.Runs

/-! `InternalRedisLockProvider` in its default mode: `SET NX PX` and the three scripts on the keys
of one server, and each call split at its request. -/
namespace Tslock.Redis

open Function Foundation

structure RedisLockProviderConfig where
  keyPrefix : Option String
  env : Option String
deriving DecidableEq, Repr

def defaultKeyPrefix : String := "job-lock"

def envDefault : String := "default"

def RedisLockProviderConfig.buildKey (config : RedisLockProviderConfig) (lockName : String) :
    String :=
  config.keyPrefix.getD defaultKeyPrefix ++ ":" ++ config.env.getD envDefault ++ ":" ++ lockName

/-- In UTF-16 code units. -/
def utf16Size (c : Char) : ℕ := if c.toNat < 0x10000 then 1 else 2

/-- The `length` of a string. -/
def utf16Length (text : List Char) : ℕ := (text.map utf16Size).sum

/-- `text.substring(start)`, for a start between two characters. -/
def substring : List Char → ℕ → List Char
  | [], _ => []
  | c :: text, start => if start = 0 then c :: text else substring text (start - utf16Size c)

/-- `keyPrefix` is the parameter `prefix`. -/
def parseKey (key keyPrefix env : String) : String :=
  String.ofList (substring key.toList (utf16Length (keyPrefix ++ ":" ++ env ++ ":").toList))

theorem substring_append (left right : List Char) :
    substring (left ++ right) (utf16Length left) = right := by
  induction left with
  | nil => cases right <;> simp [substring, utf16Length]
  | cons c left ih =>
    have hpos : 0 < utf16Size c := by
      unfold utf16Size
      split <;> omega
    have hlength : utf16Length (c :: left) = utf16Size c + utf16Length left := by
      simp [utf16Length]
    rw [List.cons_append, hlength, substring, if_neg (by omega), Nat.add_sub_cancel_left, ih]

structure RedisLockValueParts where
  hostname : String
  isoNow : String
  randomId : String
deriving DecidableEq, Repr

def buildValue (parts : RedisLockValueParts) : String :=
  "ADDED:" ++ parts.isoNow ++ "@" ++ parts.hostname ++ ":" ++ parts.randomId

/-- A UUID has 36 characters. -/
def randomIdOf (value : String) : String :=
  String.ofList (value.toList.drop (value.toList.length - 36))

theorem randomIdOf_buildValue {parts : RedisLockValueParts} (h : parts.randomId.length = 36) :
    randomIdOf (buildValue parts) = parts.randomId := by
  have hlength : parts.randomId.toList.length = 36 := by rwa [String.length_toList]
  unfold randomIdOf buildValue
  simp only [String.toList_append, List.length_append, hlength, Nat.add_sub_cancel]
  rw [← List.length_append, ← List.length_append, ← List.length_append, ← List.length_append,
    List.drop_left, String.ofList_toList]

structure Entry where
  value : String
  expiresAt : ℚ
deriving DecidableEq, Repr

abbrev Keys := String → Option Entry

/-- `SET key value NX PX ms`; no answer stands for an error reply, which a `ms` that is not a
positive integer gets. -/
def setIfAbsent (now : ℚ) (key value : String) (ms : ℚ) (keys : Keys) : Keys × Option Bool :=
  if ms ≤ 0 ∨ ms.den ≠ 1 then (keys, none)
  else
    match keys key with
    | some _ => (keys, some false)
    | none => (update keys key (some ⟨value, now + ms⟩), some true)

/-- `DEL_IF_EQUALS_SCRIPT` -/
def delIfEquals (key value : String) (keys : Keys) : Keys × Option Bool :=
  if (keys key).map Entry.value = some value then (update keys key none, some true)
  else (keys, some false)

/-- `EXTEND_IF_EQUALS_SCRIPT` and `KEEP_IF_EQUALS_SCRIPT`: `PEXPIRE` deletes the key where its time
to live is not positive. -/
def expireIfEquals (now : ℚ) (key value : String) (ms : ℚ) (keys : Keys) : Keys × Option Bool :=
  if (keys key).map Entry.value = some value then
    if ms.den ≠ 1 then (keys, none)
    else (update keys key (if ms ≤ 0 then none else some ⟨value, now + ms⟩), some true)
  else (keys, some false)

/-- The script `doUnlock` evaluates. -/
def unlockScript (now : ℚ) (key value : String) (keepLockFor : ℚ) (keys : Keys) :
    Keys × Option Bool :=
  if 0 < keepLockFor then expireIfEquals now key value keepLockFor keys
  else delIfEquals key value keys

/-- Where an acquisition stands. After a successful extension it goes on with the configuration of
the successor handle, which has the same key and value. -/
inductive Phase where
  | locking (expireMs : ℚ)
  | refused
  | rejected
  | held
  | extending (newConfig : LockConfiguration ℚ)
  | extendSent (newConfig : LockConfiguration ℚ) (expireMs : ℚ)
  | unlocking (keepLockFor : ℚ)
  | unlocked
deriving DecidableEq, Repr

/-- There is a handle, and it is not unlocked. -/
def Phase.Outstanding : Phase → Prop
  | .held | .extending _ | .extendSent .. | .unlocking _ => True
  | .locking _ | .refused | .rejected | .unlocked => False

instance : DecidablePred Phase.Outstanding := fun phase =>
  match phase with
  | .held | .extending _ | .extendSent .. | .unlocking _ => .isTrue trivial
  | .locking _ | .refused | .rejected | .unlocked => .isFalse not_false

structure RedisLock where
  key : String
  value : String
  config : LockConfiguration ℚ
  phase : Phase
deriving DecidableEq, Repr

/-- What `lock()` makes of the answer. -/
def RedisLock.afterSet (l : RedisLock) : Option Bool → RedisLock
  | some true => { l with phase := .held }
  | some false => { l with phase := .refused }
  | none => { l with phase := .rejected }

/-- What `extend()` makes of it: a refusal and an error leave the handle valid. -/
def RedisLock.afterExtend (l : RedisLock) (newConfig : LockConfiguration ℚ) :
    Option Bool → RedisLock
  | some true => { l with config := newConfig, phase := .held }
  | some false | none => { l with phase := .held }

/-- `unlock()` does not look at the answer of its script. -/
def RedisLock.afterUnlock (l : RedisLock) : Option Bool → RedisLock
  | some _ => { l with phase := .unlocked }
  | none => { l with phase := .held }

/-- Acquisitions are told apart by their UUID. -/
structure System where
  clock : ℚ
  keys : Keys
  locks : String → Option RedisLock

namespace System

def setLock (s : System) (id : String) (l : RedisLock) : System :=
  { s with locks := update s.locks id (some l) }

def setPhase (s : System) (id : String) (l : RedisLock) (phase : Phase) : System :=
  s.setLock id { l with phase }

end System

inductive LockStep : System → String → System → Prop where
  | called {s : System} {id hostname isoNow : String} {provider : RedisLockProviderConfig}
      {config : LockConfiguration ℚ} :
      s.locks id = none → id.length = 36 → config.DurationsValid → config.createdAt ≤ s.clock →
      Utils.toIsoString config.lockAtMostUntil = some isoNow →
      LockStep s id (s.setLock id
        { key := provider.buildKey config.name
          value := buildValue ⟨hostname, isoNow, id⟩
          config
          phase := .locking (max 0 (config.lockAtMostUntil - s.clock)) })
  | replied {s : System} {id : String} {l : RedisLock} {expireMs : ℚ} {keys : Keys}
      {reply : Option Bool} :
      s.locks id = some l → l.phase = .locking expireMs →
      setIfAbsent s.clock l.key l.value expireMs s.keys = (keys, reply) →
      LockStep s id ({ s with keys }.setLock id (l.afterSet reply))
  | fails {s : System} {id : String} {l : RedisLock} {expireMs : ℚ} :
      s.locks id = some l → l.phase = .locking expireMs →
      LockStep s id (s.setPhase id l .rejected)

inductive ExtendStep : System → String → System → Prop where
  | called {s : System} {id : String} {l : RedisLock} {most least : ℚ} :
      s.locks id = some l → l.phase = .held → 0 ≤ least → least ≤ most →
      ExtendStep s id (s.setPhase id l (.extending (l.config.successor most least s.clock)))
  | sent {s : System} {id : String} {l : RedisLock} {newConfig : LockConfiguration ℚ} :
      s.locks id = some l → l.phase = .extending newConfig →
      ExtendStep s id (s.setPhase id l
        (.extendSent newConfig (max 0 (newConfig.lockAtMostUntil - s.clock))))
  | replied {s : System} {id : String} {l : RedisLock} {newConfig : LockConfiguration ℚ}
      {expireMs : ℚ} {keys : Keys} {reply : Option Bool} :
      s.locks id = some l → l.phase = .extendSent newConfig expireMs →
      expireIfEquals s.clock l.key l.value expireMs s.keys = (keys, reply) →
      ExtendStep s id ({ s with keys }.setLock id (l.afterExtend newConfig reply))
  | fails {s : System} {id : String} {l : RedisLock} {newConfig : LockConfiguration ℚ}
      {expireMs : ℚ} :
      s.locks id = some l → l.phase = .extendSent newConfig expireMs →
      ExtendStep s id (s.setPhase id l .held)

inductive UnlockStep : System → String → System → Prop where
  | called {s : System} {id : String} {l : RedisLock} :
      s.locks id = some l → l.phase = .held →
      UnlockStep s id (s.setPhase id l (.unlocking (l.config.lockAtLeastUntil - s.clock)))
  | replied {s : System} {id : String} {l : RedisLock} {keepLockFor : ℚ} {keys : Keys}
      {reply : Option Bool} :
      s.locks id = some l → l.phase = .unlocking keepLockFor →
      unlockScript s.clock l.key l.value keepLockFor s.keys = (keys, reply) →
      UnlockStep s id ({ s with keys }.setLock id (l.afterUnlock reply))
  | fails {s : System} {id : String} {l : RedisLock} {keepLockFor : ℚ} :
      s.locks id = some l → l.phase = .unlocking keepLockFor →
      UnlockStep s id (s.setPhase id l .held)

/-- Who moves: the clock, the server that drops a key, or a call of an acquisition. -/
inductive Event where
  | tick
  | expire (key : String)
  | lock (id : String)
  | extend (id : String)
  | unlock (id : String)
deriving DecidableEq, Repr

/-- A request that fails does so before it reaches the server; no answer is lost. -/
inductive Step : System → Event → System → Prop where
  | tick {s : System} {now : ℚ} : s.clock ≤ now → Step s .tick { s with clock := now }
  | expire {s : System} {key : String} {entry : Entry} :
      s.keys key = some entry → entry.expiresAt ≤ s.clock →
      Step s (.expire key) { s with keys := update s.keys key none }
  | lock {s t : System} {id : String} : LockStep s id t → Step s (.lock id) t
  | extend {s t : System} {id : String} : ExtendStep s id t → Step s (.extend id) t
  | unlock {s t : System} {id : String} : UnlockStep s id t → Step s (.unlock id) t

def system : TransitionSystem System Event where
  Initial s := (∀ key, s.keys key = none) ∧ ∀ id, s.locks id = none
  Step := Step

variable {now ms : ℚ} {key value : String} {keys keys' : Keys} {reply : Option Bool}

theorem setIfAbsent_granted (h : setIfAbsent now key value ms keys = (keys', some true)) :
    keys key = none ∧ keys' = update keys key (some ⟨value, now + ms⟩) := by
  unfold setIfAbsent at h
  split_ifs at h
  · cases congrArg Prod.snd h
  · cases hk : keys key with
    | none =>
      rw [hk] at h
      exact ⟨rfl, (congrArg Prod.fst h).symm⟩
    | some e =>
      rw [hk] at h
      cases congrArg Prod.snd h

theorem setIfAbsent_other (h : setIfAbsent now key value ms keys = (keys', reply))
    (hr : reply ≠ some true) : keys' = keys := by
  unfold setIfAbsent at h
  split_ifs at h
  · exact (congrArg Prod.fst h).symm
  · cases hk : keys key with
    | none =>
      rw [hk] at h
      exact absurd (congrArg Prod.snd h).symm hr
    | some e =>
      rw [hk] at h
      exact (congrArg Prod.fst h).symm

/-- A script that finds the value writes the key, one that does not changes nothing. -/
theorem expireIfEquals_cases (h : expireIfEquals now key value ms keys = (keys', reply)) :
    (reply = some true ∧ (∃ e, keys key = some e ∧ e.value = value) ∧
      keys' = update keys key (if ms ≤ 0 then none else some ⟨value, now + ms⟩)) ∨
    (reply ≠ some true ∧ (reply = some false → (keys key).map Entry.value ≠ some value) ∧
      keys' = keys) := by
  unfold expireIfEquals at h
  by_cases hvalue : (keys key).map Entry.value = some value
  · rw [if_pos hvalue] at h
    by_cases hwhole : ms.den ≠ 1
    · rw [if_pos hwhole] at h
      obtain ⟨rfl, rfl⟩ := Prod.mk.inj h
      exact .inr ⟨by simp, by simp, rfl⟩
    · rw [if_neg hwhole] at h
      obtain ⟨rfl, rfl⟩ := Prod.mk.inj h
      exact .inl ⟨rfl, Option.map_eq_some_iff.mp hvalue, rfl⟩
  · rw [if_neg hvalue] at h
    obtain ⟨rfl, rfl⟩ := Prod.mk.inj h
    exact .inr ⟨by simp, fun _ => hvalue, rfl⟩

theorem delIfEquals_cases (h : delIfEquals key value keys = (keys', reply)) :
    (reply = some true ∧ (∃ e, keys key = some e ∧ e.value = value) ∧
      keys' = update keys key none) ∨
    (reply ≠ some true ∧ (reply = some false → (keys key).map Entry.value ≠ some value) ∧
      keys' = keys) := by
  unfold delIfEquals at h
  by_cases hvalue : (keys key).map Entry.value = some value
  · rw [if_pos hvalue] at h
    obtain ⟨rfl, rfl⟩ := Prod.mk.inj h
    exact .inl ⟨rfl, Option.map_eq_some_iff.mp hvalue, rfl⟩
  · rw [if_neg hvalue] at h
    obtain ⟨rfl, rfl⟩ := Prod.mk.inj h
    exact .inr ⟨by simp, fun _ => hvalue, rfl⟩

/-- Whichever script `unlock()` runs. -/
theorem unlockScript_cases {keepLockFor : ℚ}
    (h : unlockScript now key value keepLockFor keys = (keys', reply)) :
    (reply = some true ∧ (∃ e, keys key = some e ∧ e.value = value) ∧
      keys' = update keys key
        (if 0 < keepLockFor then some ⟨value, now + keepLockFor⟩ else none)) ∨
    (reply ≠ some true ∧ (reply = some false → (keys key).map Entry.value ≠ some value) ∧
      keys' = keys) := by
  unfold unlockScript at h
  by_cases hkeep : 0 < keepLockFor
  · rw [if_pos hkeep] at h ⊢
    rcases expireIfEquals_cases h with ⟨hr, hfound, hkeys⟩ | hother
    · rw [if_neg (not_le_of_gt hkeep)] at hkeys
      exact .inl ⟨hr, hfound, hkeys⟩
    · exact .inr hother
  · rw [if_neg hkeep] at h ⊢
    exact delIfEquals_cases h

end Tslock.Redis
