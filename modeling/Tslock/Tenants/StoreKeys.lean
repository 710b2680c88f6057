import Tslock.Core.CreateLockConfig
import Tslock.Etcd.EtcdAccessor
import Tslock.Memcached.MemcachedLockProvider
import Tslock.Redis.RedisLockProvider

/-! The keys of locks of different tenants, where a key is a scope followed by the lock's name. -/
namespace Tslock

open Function Foundation

/-- `createLockConfig` accepts the name, with some durations. -/
def AcceptedName (name : String) : Prop :=
  ∃ most least now config, createLockConfig name most least now = .ok config

theorem validateLockName_ok {name : String} : validateLockName name = .ok () ↔
    name.toList.any isControl = false ∧ name.utf8ByteSize ≤ maxLockNameBytes := by
  unfold validateLockName
  split_ifs with hcontrol hlong
  · simp [hcontrol]
  · simp [hcontrol, hlong]
  · simp [hcontrol, not_lt.mp hlong]

theorem acceptedName_iff {name : String} : AcceptedName name ↔
    name ≠ "" ∧ name.toList.any isControl = false ∧ name.utf8ByteSize ≤ maxLockNameBytes := by
  constructor
  · rintro ⟨most, least, now, config, h⟩
    have haccepted := accepted_of_createLockConfig h
    exact ⟨haccepted.nonempty, validateLockName_ok.mp haccepted.validated⟩
  · rintro ⟨hname, hvalid⟩
    have hzero : parseDuration (.number 0) = .ok 0 := by decide +kernel
    have hlt : ¬ (0 : JsNumber) < 0 := JsNumber.not_lt_self 0
    refine ⟨.number 0, .number 0, 0, ⟨name, 0, 0, 0⟩, ?_⟩
    simp [createLockConfig, hname, validateLockName_ok.mpr hvalid, hzero, hlt]

/-- What stands in front of an accepted name within an accepted name. -/
def Continues (text : String) : Prop :=
  text.toList.any isControl = false ∧ text.utf8ByteSize < maxLockNameBytes

/-- Neither scope goes on from the other as a lock name would. -/
def Apart (scope scope' : String) : Prop :=
  ∀ text, Continues text → scope' ≠ scope ++ text ∧ scope ≠ scope' ++ text

theorem continues_of_acceptedName {text name : String} (h : AcceptedName (text ++ name))
    (hname : name ≠ "") : Continues text := by
  obtain ⟨-, hcontrol, hbytes⟩ := acceptedName_iff.mp h
  rw [String.toList_append, List.any_append, Bool.or_eq_false_iff] at hcontrol
  rw [String.utf8ByteSize_append] at hbytes
  have hpos : name.utf8ByteSize ≠ 0 := fun h0 => hname (String.utf8ByteSize_eq_zero_iff.mp h0)
  exact ⟨hcontrol.1, by omega⟩

theorem acceptedName_append {text : String} (h : Continues text) : AcceptedName (text ++ "x") := by
  obtain ⟨hcontrol, hbytes⟩ := h
  have hx : ("x" : String).utf8ByteSize = 1 := by decide +kernel
  have hx' : ("x" : String).toList.any isControl = false := by decide +kernel
  refine acceptedName_iff.mpr ⟨?_, ?_, ?_⟩
  · intro hempty
    have := congrArg String.utf8ByteSize hempty
    rw [String.utf8ByteSize_append, hx] at this
    simp at this
  · rw [String.toList_append, List.any_append, hcontrol, hx']
    rfl
  · rw [String.utf8ByteSize_append, hx]
    omega

theorem exists_append {a b c d : String} (h : a ++ b = c ++ d) :
    (∃ text, c = a ++ text ∧ b = text ++ d) ∨ ∃ text, a = c ++ text ∧ d = text ++ b := by
  have hlist := congrArg String.toList h
  rw [String.toList_append, String.toList_append] at hlist
  rcases List.append_eq_append_iff.mp hlist with ⟨text, hc, hb⟩ | ⟨text, ha, hd⟩
  · refine .inl ⟨String.ofList text, ?_, ?_⟩
    · rw [← String.toList_inj, String.toList_append, String.toList_ofList, hc]
    · rw [← String.toList_inj, String.toList_append, String.toList_ofList, hb]
  · refine .inr ⟨String.ofList text, ?_, ?_⟩
    · rw [← String.toList_inj, String.toList_append, String.toList_ofList, ha]
    · rw [← String.toList_inj, String.toList_append, String.toList_ofList, hd]

/-- Keys of two scopes can only meet where one scope goes on from the other. -/
theorem distinct_iff_apart {ι : Type*} (scope : ι → String) (i j : ι) :
    (∀ n n', AcceptedName n → AcceptedName n' → (i, n) ≠ (j, n') → scope i ++ n ≠ scope j ++ n') ↔
      i = j ∨ Apart (scope i) (scope j) := by
  constructor
  · intro h
    by_contra hnot
    obtain ⟨hne, hapart⟩ := not_or.mp hnot
    apply hapart
    have hx : AcceptedName ("" ++ "x") :=
      acceptedName_append ⟨by decide +kernel, by decide +kernel⟩
    intro text htext
    constructor
    · intro hscope
      refine h _ _ (acceptedName_append htext) hx (by simp [hne]) ?_
      rw [hscope, String.append_assoc, String.empty_append]
    · intro hscope
      refine h _ _ hx (acceptedName_append htext) (by simp [hne]) ?_
      rw [hscope, String.append_assoc, String.empty_append]
  · rintro h n n' hn hn' hne heq
    rcases h with rfl | hapart
    · exact hne (by rw [(String.append_right_inj _).mp heq])
    · rcases exists_append heq with ⟨text, hscope, rfl⟩ | ⟨text, hscope, rfl⟩
      · have htext := continues_of_acceptedName hn (acceptedName_iff.mp hn').1
        exact (hapart text htext).1 hscope
      · have htext := continues_of_acceptedName hn' (acceptedName_iff.mp hn).1
        exact (hapart text htext).2 hscope

/-- A command on one key: it leaves the others alone, and they decide neither its answer nor what it
makes of its own. -/
structure OnKey {ε ρ : Type*} (key : String) (run : (String → Option ε) → (String → Option ε) × ρ) :
    Prop where
  others : ∀ entries k, k ≠ key → (run entries).1 k = entries k
  entry : ∀ entries entries', entries key = entries' key →
    (run entries).1 key = (run entries').1 key
  answer : ∀ entries entries', entries key = entries' key → (run entries).2 = (run entries').2

/-- A command that looks at its own entry only, and writes that or nothing. -/
theorem onKey_of_entry {ε ρ : Type*} {key : String}
    {run : (String → Option ε) → (String → Option ε) × ρ}
    (f : Option ε → Option (Option ε) × ρ)
    (h : ∀ entries, run entries =
      ((f (entries key)).1.elim entries (update entries key), (f (entries key)).2)) :
    OnKey key run where
  others entries k hne := by
    rw [h]
    cases (f (entries key)).1 with
    | none => rfl
    | some entry => exact update_of_ne hne _ _
  entry entries entries' heq := by
    rw [h, h, heq]
    cases (f (entries' key)).1 with
    | none => exact heq
    | some entry => simp only [Option.elim_some, update_self]
  answer entries entries' heq := by rw [h, h, heq]

/-- A command as one of the senders `ι` has it served. -/
structure Command (ι ε ρ : Type*) where
  sender : ι
  key : String
  run : (String → Option ε) → (String → Option ε) × ρ
  onKey : OnKey key run

/-- One command after the other: the entries they leave, and what each sender is answered. -/
def serve {ι ε ρ : Type*} :
    List (Command ι ε ρ) → (String → Option ε) → (String → Option ε) × List (ι × ρ)
  | [], entries => (entries, [])
  | q :: sent, entries =>
    ((serve sent (q.run entries).1).1, (q.sender, (q.run entries).2) ::
      (serve sent (q.run entries).1).2)

/-- Some senders that keep to keys of their own get the answers they would get without the others,
and find their entries as if there were no others. -/
theorem serve_filter {ι ε ρ : Type*} (mine : ι → Bool) (own : String → Prop)
    (sent : List (Command ι ε ρ)) (entries entries' : String → Option ε)
    (hown : ∀ q ∈ sent, mine q.sender = true ↔ own q.key)
    (hentries : ∀ k, own k → entries k = entries' k) :
    (∀ k, own k → (serve sent entries).1 k =
      (serve (sent.filter fun q => mine q.sender) entries').1 k) ∧
    ((serve sent entries).2.filter fun a => mine a.1) =
      (serve (sent.filter fun q => mine q.sender) entries').2 := by
  induction sent generalizing entries entries' with
  | nil => exact ⟨hentries, rfl⟩
  | cons q sent ih =>
    have hrest : ∀ r ∈ sent, mine r.sender = true ↔ own r.key :=
      fun r hr => hown r (List.mem_cons_of_mem q hr)
    have hq := hown q List.mem_cons_self
    cases hmine : mine q.sender with
    | true =>
      have hkey := hentries q.key (hq.mp hmine)
      have hnext : ∀ k, own k → (q.run entries).1 k = (q.run entries').1 k := by
        intro k hk
        by_cases hne : k = q.key
        · rw [hne]
          exact q.onKey.entry _ _ hkey
        · rw [q.onKey.others _ _ hne, q.onKey.others _ _ hne, hentries k hk]
      obtain ⟨hleft, hanswers⟩ := ih _ _ hrest hnext
      have hanswer := q.onKey.answer _ _ hkey
      simp only [List.filter_cons, hmine, serve, if_true]
      exact ⟨hleft, by rw [hanswer, hanswers]⟩
    | false =>
      have hforeign : ¬ own q.key := fun hk => by
        rw [hq.mpr hk] at hmine
        cases hmine
      have hnext : ∀ k, own k → (q.run entries).1 k = entries' k := by
        intro k hk
        have hne : k ≠ q.key := fun heq => hforeign (heq ▸ hk)
        rw [q.onKey.others _ _ hne, hentries k hk]
      obtain ⟨hleft, hanswers⟩ := ih _ _ hrest hnext
      simp only [List.filter_cons, hmine, serve, Bool.false_eq_true, if_false]
      exact ⟨hleft, hanswers⟩

namespace Redis

theorem setIfAbsent_onKey (now ms : ℚ) (key value : String) :
    OnKey key (setIfAbsent now key value ms) := by
  refine onKey_of_entry (fun entry =>
    if ms ≤ 0 ∨ ms.den ≠ 1 then (none, none)
    else if entry.isSome then (none, some false)
    else (some (some ⟨value, now + ms⟩), some true)) fun keys => ?_
  unfold setIfAbsent
  by_cases hms : ms ≤ 0 ∨ ms.den ≠ 1
  · rw [if_pos hms, if_pos hms]
    rfl
  · rw [if_neg hms, if_neg hms]
    cases keys key <;> rfl

theorem delIfEquals_onKey (key value : String) : OnKey key (delIfEquals key value) := by
  refine onKey_of_entry (fun entry =>
    if entry.map Entry.value = some value then (some none, some true)
    else (none, some false)) fun keys => ?_
  unfold delIfEquals
  split_ifs <;> rfl

theorem expireIfEquals_onKey (now ms : ℚ) (key value : String) :
    OnKey key (expireIfEquals now key value ms) := by
  refine onKey_of_entry (fun entry =>
    if entry.map Entry.value = some value then
      if ms.den ≠ 1 then (none, none)
      else (some (if ms ≤ 0 then none else some ⟨value, now + ms⟩), some true)
    else (none, some false)) fun keys => ?_
  unfold expireIfEquals
  split_ifs <;> rfl

theorem unlockScript_onKey (now keepLockFor : ℚ) (key value : String) :
    OnKey key (unlockScript now key value keepLockFor) := by
  by_cases hkeep : 0 < keepLockFor
  · have hscript : unlockScript now key value keepLockFor =
        expireIfEquals now key value keepLockFor := funext fun _ => if_pos hkeep
    rw [hscript]
    exact expireIfEquals_onKey now keepLockFor key value
  · have hscript : unlockScript now key value keepLockFor = delIfEquals key value :=
      funext fun _ => if_neg hkeep
    rw [hscript]
    exact delIfEquals_onKey key value

/-- The server drops a key whose time is over. -/
def expire (now : ℚ) (key : String) (keys : Keys) : Keys × Option Bool :=
  (if (keys key).any (fun entry => entry.expiresAt ≤ now) then update keys key none else keys, none)

theorem expire_onKey (now : ℚ) (key : String) : OnKey key (expire now key) := by
  refine onKey_of_entry (fun entry =>
    (if entry.any (fun entry => entry.expiresAt ≤ now) then some none else none, none))
    fun keys => ?_
  unfold expire
  split_ifs <;> rfl

/-- The command of a request of `lock()`, `extend()` or `unlock()`, or of the server itself. -/
inductive Request where
  | lock (now : ℚ) (value : String) (expireMs : ℚ)
  | extend (now : ℚ) (value : String) (expireMs : ℚ)
  | unlock (now : ℚ) (value : String) (keepLockFor : ℚ)
  | expire (now : ℚ)
deriving DecidableEq, Repr

def Request.run (key : String) : Request → Keys → Keys × Option Bool
  | .lock now value expireMs => setIfAbsent now key value expireMs
  | .extend now value expireMs => expireIfEquals now key value expireMs
  | .unlock now value keepLockFor => unlockScript now key value keepLockFor
  | .expire now => Redis.expire now key

theorem Request.onKey (key : String) (q : Request) : OnKey key (q.run key) := by
  cases q with
  | lock now value expireMs => exact setIfAbsent_onKey now expireMs key value
  | extend now value expireMs => exact expireIfEquals_onKey now expireMs key value
  | unlock now value keepLockFor => exact unlockScript_onKey now keepLockFor key value
  | expire now => exact expire_onKey now key

/-- The tenant a configuration stands for, with the defaults filled in. -/
def RedisLockProviderConfig.tenant (config : RedisLockProviderConfig) : String × String :=
  (config.keyPrefix.getD defaultKeyPrefix, config.env.getD envDefault)

def scope (tenant : String × String) : String := tenant.1 ++ ":" ++ tenant.2 ++ ":"

theorem buildKey_eq (config : RedisLockProviderConfig) (name : String) :
    config.buildKey name = scope config.tenant ++ name := rfl

theorem parseKey_buildKey (config : RedisLockProviderConfig) (name : String) :
    parseKey (config.buildKey name) config.tenant.1 config.tenant.2 = name := by
  unfold parseKey
  rw [buildKey_eq, String.toList_append, scope, substring_append, String.ofList_toList]

/-- No colon in the prefix and none in the environment. -/
def ColonFree (tenant : String × String) : Prop :=
  ':' ∉ tenant.1.toList ∧ ':' ∉ tenant.2.toList

/-- The first separator ends the same text on both sides. -/
theorem append_cons_inj {c : Char} {a b x y : List Char} (ha : c ∉ a) (hb : c ∉ b)
    (h : a ++ c :: x = b ++ c :: y) : a = b ∧ x = y := by
  rcases List.append_eq_append_iff.mp h with ⟨l, rfl, htail⟩ | ⟨l, rfl, htail⟩
  · cases l with
    | nil => exact ⟨by simp, (List.cons.inj htail).2⟩
    | cons d l =>
      obtain ⟨rfl, -⟩ := List.cons.inj htail
      exact absurd (by simp) hb
  · cases l with
    | nil => exact ⟨by simp, (List.cons.inj htail).2.symm⟩
    | cons d l =>
      obtain ⟨rfl, -⟩ := List.cons.inj htail
      exact absurd (by simp) ha

theorem eq_of_scope_append {t t' : String × String} {text : String} (h : ColonFree t)
    (h' : ColonFree t') (heq : scope t' = scope t ++ text) : t = t' := by
  have hlist := congrArg String.toList heq
  have hcolon : (":" : String).toList = [':'] := by decide +kernel
  simp only [scope, String.toList_append, hcolon, List.append_assoc, List.cons_append,
    List.nil_append] at hlist
  obtain ⟨hfirst, hrest⟩ := append_cons_inj h'.1 h.1 hlist
  obtain ⟨henv, -⟩ := append_cons_inj h'.2 h.2 hrest
  exact Prod.ext (String.toList_inj.mp hfirst.symm) (String.toList_inj.mp henv.symm)

/-- Tenants without colons are apart, whatever the names of their locks. -/
theorem apart_of_colonFree {t t' : String × String} (hne : t ≠ t') (h : ColonFree t)
    (h' : ColonFree t') : Apart (scope t) (scope t') := by
  intro text _
  constructor
  · intro heq
    exact hne (eq_of_scope_append h h' heq)
  · intro heq
    exact hne (eq_of_scope_append h' h heq).symm

/-- A provider's request for the lock of an accepted name. -/
def RedisLockProviderConfig.command {ι : Type*} (config : ι → RedisLockProviderConfig) (i : ι)
    (name : {name : String // AcceptedName name}) (q : Request) :
    Command ι Entry (Option Bool) where
  sender := i
  key := (config i).buildKey name
  run := q.run ((config i).buildKey name)
  onKey := q.onKey _

/-- Locks of a tenant apart from all others are granted, refused, extended and released as if it had
the server to itself. -/
theorem tenant_alone {ι : Type*} [DecidableEq ι] (config : ι → RedisLockProviderConfig) (i : ι)
    (hapart : ∀ j, j ≠ i → Apart (scope (config i).tenant) (scope (config j).tenant))
    (sent : List (ι × {name : String // AcceptedName name} × Request)) (keys : Keys) :
    let commands := sent.map fun q => RedisLockProviderConfig.command config q.1 q.2.1 q.2.2
    let own := commands.filter fun q => q.sender = i
    ((serve commands keys).2.filter fun a => a.1 = i) = (serve own keys).2 ∧
    ∀ name, AcceptedName name → (serve commands keys).1 ((config i).buildKey name) =
      (serve own keys).1 ((config i).buildKey name) := by
  intro commands own
  have hown : ∀ q ∈ commands, decide (q.sender = i) = true ↔
      ∃ name, AcceptedName name ∧ q.key = (config i).buildKey name := by
    intro q hq
    obtain ⟨⟨j, name, request⟩, -, rfl⟩ := List.mem_map.mp hq
    rw [decide_eq_true_iff]
    constructor
    · rintro rfl
      exact ⟨name, name.2, rfl⟩
    · rintro ⟨name', hname', hkey⟩
      by_contra hne
      have hdistinct := (distinct_iff_apart (fun j => scope (config j).tenant) i j).mpr
        (.inr (hapart j hne))
      exact hdistinct name' name hname' name.2 (fun heq => hne (congrArg Prod.fst heq).symm)
        hkey.symm
  obtain ⟨hleft, hanswers⟩ := serve_filter (fun j => decide (j = i))
    (fun key => ∃ name, AcceptedName name ∧ key = (config i).buildKey name) commands keys keys hown
    fun _ _ => rfl
  exact ⟨hanswers, fun name hname => hleft _ ⟨name, hname, rfl⟩⟩

end Redis

/-- The keys of two tenants that share the leading `shedlock:` are apart as their scopes are. -/
theorem apart_append {a b c : String} : Apart (a ++ b) (a ++ c) ↔ Apart b c := by
  unfold Apart
  simp only [String.append_assoc, ne_eq, String.append_right_inj]

/-- Of two tenants of a provider, the locks have distinct keys exactly when the scope of neither
goes on from the other's; and a key is parsed into the name it was built from. -/
theorem keys_distinct_iff (c c' : Redis.RedisLockProviderConfig)
    (p p' : Memcached.MemcachedLockProvider) (s s' : Etcd.Setup) :
    ((∀ n n', AcceptedName n → AcceptedName n' → (c.tenant, n) ≠ (c'.tenant, n') →
        c.buildKey n ≠ c'.buildKey n') ↔
      c.tenant = c'.tenant ∨ Apart (Redis.scope c.tenant) (Redis.scope c'.tenant)) ∧
    ((∀ n n', AcceptedName n → AcceptedName n' → (p.env, n) ≠ (p'.env, n') →
        p.key n ≠ p'.key n') ↔
      p.env = p'.env ∨ Apart (p.env ++ ":") (p'.env ++ ":")) ∧
    ((∀ n n', AcceptedName n → AcceptedName n' → (s.env, n) ≠ (s'.env, n') →
        s.key n ≠ s'.key n') ↔
      s.env = s'.env ∨ Apart (s.env ++ ":") (s'.env ++ ":")) ∧
    ∀ n : String, Redis.parseKey (c.buildKey n) c.tenant.1 c.tenant.2 = n := by
  have henv : ∀ env : String, "shedlock:" ++ env ++ ":" = "shedlock:" ++ (env ++ ":") :=
    fun env => String.append_assoc
  refine ⟨distinct_iff_apart Redis.scope c.tenant c'.tenant, ?_, ?_, Redis.parseKey_buildKey c⟩
  · rw [← apart_append, ← henv, ← henv]
    exact distinct_iff_apart (fun env => "shedlock:" ++ env ++ ":") p.env p'.env
  · rw [← apart_append, ← henv, ← henv]
    exact distinct_iff_apart (fun env => "shedlock:" ++ env ++ ":") s.env s'.env

/-- Two tenants of one environment name each, and one lock name each, with one key: the second
lock is refused as long as the first is held. -/
theorem colon_merges_tenants :
    AcceptedName "eu:report" ∧ AcceptedName "report" ∧
    ((⟨none, some "acme"⟩ : Redis.RedisLockProviderConfig).tenant, "eu:report") ≠
      ((⟨none, some "acme:eu"⟩ : Redis.RedisLockProviderConfig).tenant, "report") ∧
    (⟨none, some "acme"⟩ : Redis.RedisLockProviderConfig).buildKey "eu:report" =
      (⟨none, some "acme:eu"⟩ : Redis.RedisLockProviderConfig).buildKey "report" ∧
    (Redis.setIfAbsent 0
      ((⟨none, some "acme:eu"⟩ : Redis.RedisLockProviderConfig).buildKey "report") "second" 60000
      (Redis.setIfAbsent 0
        ((⟨none, some "acme"⟩ : Redis.RedisLockProviderConfig).buildKey "eu:report") "first" 60000
        fun _ => none).1).2 = some false ∧
    (Memcached.MemcachedLockProvider.create (some "acme")).key "eu:report" =
      (Memcached.MemcachedLockProvider.create (some "acme:eu")).key "report" ∧
    (⟨"acme", fun _ => "host"⟩ : Etcd.Setup).key "eu:report" =
      (⟨"acme:eu", fun _ => "host"⟩ : Etcd.Setup).key "report" := by
  have hlong : AcceptedName "eu:report" :=
    acceptedName_iff.mpr ⟨by decide +kernel, by decide +kernel, by decide +kernel⟩
  have hshort : AcceptedName "report" :=
    acceptedName_iff.mpr ⟨by decide +kernel, by decide +kernel, by decide +kernel⟩
  refine ⟨hlong, hshort, ?_, ?_, ?_, ?_, ?_⟩ <;> decide +kernel

end Tslock
