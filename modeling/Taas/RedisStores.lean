import Mathlib
import Taas.Delimiters
import Taas.Glob
import Taas.Transition

/-!
The stores on one Redis. A store puts its namespace before its keys; bulk deletion goes by a pattern
of keys. Seen from outside, each namespace is a Redis of its own, whose keys have no prefix.
-/
namespace Taas.RedisStores

open Transition

/-- A key's data and the time in milliseconds at which it expires. -/
structure Entry where
  data : ByteArray
  expireAt : Option ℤ
  deriving DecidableEq

abbrev Redis := String → Option Entry

namespace Redis

def live (r : Redis) (now : ℤ) (key : String) : Option Entry :=
  (r key).filter fun e => e.expireAt.all (now ≤ ·)

/-- `TTL`, which rounds to whole seconds. -/
def ttl (r : Redis) (now : ℤ) (key : String) : ℤ :=
  match r.live now key with
  | none => -2
  | some e => e.expireAt.elim (-1) fun t => (t - now + 500) / 1000

/-- `SET` with `EX`; `none` is the error of an expire time that is not positive. -/
def set (r : Redis) (now : ℤ) (key : String) (data : ByteArray) : Option ℤ → Option Redis
  | none => some (Function.update r key (some ⟨data, none⟩))
  | some ex =>
    if 0 < ex then some (Function.update r key (some ⟨data, some (now + ex * 1000)⟩)) else none

def del (r : Redis) (key : String) : Redis := Function.update r key none

/-- `EXPIRE`, which deletes a key whose new time is not in the future. -/
def expire (r : Redis) (now : ℤ) (key : String) (seconds : ℤ) : Redis :=
  match r.live now key with
  | none => r
  | some e =>
    if 0 < seconds then Function.update r key (some { e with expireAt := now + seconds * 1000 })
    else r.del key

/-- `UNLINK` of all that a `SCAN` with `MATCH` finds. -/
def unlinkMatching (r : Redis) (pattern : String) : Redis :=
  fun key => if Glob.glob pattern.toList key.toList then none else r key

end Redis

/-- A time to live: seconds, or a `timedelta` of microseconds. -/
inductive Span
  | seconds (n : ℤ)
  | timedelta (microseconds : ℤ)
  deriving DecidableEq

def Span.isZero : Span → Bool
  | .seconds n => n = 0
  | .timedelta n => n = 0

def Span.ex : Span → ℤ
  | .seconds n => n
  | .timedelta n => n.tdiv 1000000

/-- The seconds of a renewal. `timedelta.seconds` leaves out the days. -/
def Span.renewal : Span → ℤ
  | .seconds n => n
  | .timedelta n => n / 1000000 % 86400

inductive Value
  | text (s : String)
  | bytes (b : ByteArray)

def Value.encode : Value → ByteArray
  | .text s => s.toUTF8
  | .bytes b => b

structure RedisStore where
  namespaceName : Option String := some "TAAS"
  deriving DecidableEq

/-- The namespace, where it is a true value. -/
def RedisStore.name (store : RedisStore) : String := store.namespaceName.getD ""

def RedisStore.withNamespace (store : RedisStore) (nested : String) : RedisStore where
  namespaceName := if store.name = "" then nested else store.name ++ "_" ++ nested

/-- `_make_key` under this namespace, which is empty when there is none. -/
def makeKey (name key : String) : String := (if name = "" then "" else name ++ ":") ++ key

inductive Op
  | set (key : String) (value : Value) (expiresIn : Option Span)
  | get (key : String) (renewFor : Option Span)
  | delete (key : String)
  | deleteAll
  | existsKey (key : String)
  | expiresIn (key : String)

inductive Answer
  | done
  | data (bytes : Option ByteArray)
  | truth (b : Bool)
  | seconds (n : Option ℤ)
  | responseError
  | improperlyConfigured
  deriving DecidableEq

/-- The script that gets and renews a key. -/
def getAndRenew (r : Redis) (now : ℤ) (key : String) (renew : ℤ) : Option ByteArray × Redis :=
  let data := (r.live now key).map Entry.data
  if 0 < r.ttl now key then (data, r.expire now key renew) else (data, r)

/-- A method of a store, of this namespace, at this time. -/
def run (name : String) (now : ℤ) (op : Op) (r : Redis) : Answer × Redis :=
  match op with
  | .set key value expiresIn =>
    match r.set now (makeKey name key) value.encode (expiresIn.map Span.ex) with
    | some r' => (.done, r')
    | none => (.responseError, r)
  | .get key renewFor =>
    match renewFor.filter fun span => !span.isZero with
    | some span =>
      let (data, r') := getAndRenew r now (makeKey name key) span.renewal
      (.data data, r')
    | none => (.data ((r.live now (makeKey name key)).map Entry.data), r)
  | .delete key => (.done, r.del (makeKey name key))
  | .deleteAll =>
    if name = "" then (.improperlyConfigured, r)
    else (.done, r.unlinkMatching (name ++ "*:*"))
  | .existsKey key => (.truth (r.live now (makeKey name key)).isSome, r)
  | .expiresIn key =>
    let ttl := r.ttl now (makeKey name key)
    (.seconds (if ttl = -2 then none else some ttl), r)

structure Call where
  store : RedisStore
  now : ℤ
  op : Op

/-- Stores on one Redis, with what their calls have answered. -/
def stores : System (Redis × List Answer) Call where
  init s := s.1 = (fun _ => none) ∧ s.2 = []
  next s c :=
    let (answer, r) := run c.store.name c.now c.op s.1
    some (r, s.2 ++ [answer])

abbrev Spaces := String → Redis

/-- A call works on the Redis of its own namespace, with keys as they are. Bulk deletion empties all
that have a name that begins with its own. -/
def runApart (name : String) (now : ℤ) (op : Op) (spaces : Spaces) : Answer × Spaces :=
  match op with
  | .deleteAll =>
    if name = "" then (.improperlyConfigured, spaces)
    else (.done, fun n => if name.toList <+: n.toList then fun _ => none else spaces n)
  | op =>
    let (answer, r) := run "" now op (spaces name)
    (answer, Function.update spaces name r)

def apart : System (Spaces × List Answer) Call where
  init s := s.1 = (fun _ _ => none) ∧ s.2 = []
  next s c :=
    let (answer, spaces) := runApart c.store.name c.now c.op s.1
    some (spaces, s.2 ++ [answer])

/-- A namespace without a colon and without the special characters of patterns. -/
def PlainName (name : String) : Prop := ∀ c ∈ name.toList, c ≠ ':' ∧ ¬Glob.special c

/-- Keys without a prefix have no colon. -/
def KeyOf (name key : String) : Prop := name = "" → ':' ∉ key.toList

def Op.key : Op → Option String
  | .set key _ _ => some key
  | .get key _ => some key
  | .delete key => some key
  | .deleteAll => none
  | .existsKey key => some key
  | .expiresIn key => some key

def WellNamed {S : Type} : Condition S Call := fun _ _ c =>
  PlainName c.store.name ∧ ∀ key ∈ c.op.key, KeyOf c.store.name key

/-- Each key stands under its namespace. -/
def Represents (r : Redis) (spaces : Spaces) : Prop :=
  ∀ name key, PlainName name → KeyOf name key → r (makeKey name key) = spaces name key

variable {name name' key key' : String} {r : Redis} {spaces : Spaces} {now : ℤ} {op : Op}

theorem makeKey_named (h : name ≠ "") (key : String) :
    (makeKey name key).toList = name.toList ++ ':' :: key.toList := by
  simp [makeKey, h]

theorem colon_not_mem (h : PlainName name) : ':' ∉ name.toList := fun hmem => (h ':' hmem).1 rfl

theorem cut_inj {a a' b b' : List Char} (ha : ':' ∉ a) (ha' : ':' ∉ a')
    (h : a ++ ':' :: b = a' ++ ':' :: b') : a = a' ∧ b = b' := by
  have hunbordered : Delimiters.Unbordered [':'] := by
    rintro t ⟨-, -, hne, hlt⟩
    cases t with
    | nil => exact hne rfl
    | cons c t => simp at hlt
  refine Delimiters.join_inj hunbordered ?_ ?_ (by simpa using h)
  · rwa [List.singleton_infix_iff]
  · rwa [List.singleton_infix_iff]

theorem makeKey_inj (hn : PlainName name) (hn' : PlainName name') (hk : KeyOf name key)
    (hk' : KeyOf name' key') (h : makeKey name key = makeKey name' key') :
    name = name' ∧ key = key' := by
  by_cases hname : name = "" <;> by_cases hname' : name' = ""
  · subst hname hname'
    exact ⟨rfl, by simpa [makeKey] using h⟩
  · have hlist := congrArg String.toList h
    rw [makeKey_named hname', hname] at hlist
    refine absurd ?_ (hk hname)
    have hkey : key.toList = name'.toList ++ ':' :: key'.toList := by simpa [makeKey] using hlist
    simp [hkey]
  · have hlist := congrArg String.toList h
    rw [makeKey_named hname, hname'] at hlist
    refine absurd ?_ (hk' hname')
    have hkey : name.toList ++ ':' :: key.toList = key'.toList := by simpa [makeKey] using hlist
    simp [← hkey]
  · have hlist := congrArg String.toList h
    rw [makeKey_named hname, makeKey_named hname'] at hlist
    obtain ⟨hleft, hright⟩ := cut_inj (colon_not_mem hn) (colon_not_mem hn') hlist
    exact ⟨String.toList_injective hleft, String.toList_injective hright⟩

/-- The pattern of bulk deletion finds the keys of the namespaces that begin with this one. -/
theorem glob_makeKey_iff (hn : PlainName name) (hname : name ≠ "") (hn' : PlainName name')
    (hk' : KeyOf name' key) :
    Glob.glob (name ++ "*:*").toList (makeKey name' key).toList = true ↔
      name.toList <+: name'.toList := by
  have hpattern : (name ++ "*:*").toList = name.toList ++ ['*', ':', '*'] := by simp
  rw [hpattern, Glob.glob_plain_within (fun c hc => (hn c hc).2) (by decide)]
  by_cases hname' : name' = ""
  · subst hname'
    have hkey : (makeKey "" key).toList = key.toList := by simp [makeKey]
    constructor
    · rintro ⟨u, v, h⟩
      refine absurd ?_ (hk' rfl)
      rw [← hkey, h]
      simp
    · intro h
      exact absurd (String.toList_injective (List.prefix_nil.mp h)) hname
  · rw [makeKey_named hname']
    constructor
    · rintro ⟨u, v, h⟩
      rw [List.append_assoc] at h
      rcases List.append_eq_append_iff.mp h with ⟨w, hw, hrest⟩ | ⟨w, hw, -⟩
      · cases w with
        | nil => exact ⟨[], by simp [hw]⟩
        | cons c w =>
          obtain ⟨rfl, -⟩ := List.cons.inj hrest
          exact absurd (by simp [hw]) (colon_not_mem hn)
      · exact ⟨w, hw.symm⟩
    · rintro ⟨u, hu⟩
      exact ⟨u, key.toList, by rw [hu]⟩

theorem expire_eq (r : Redis) (now : ℤ) (x y : String) (seconds : ℤ) :
    r.expire now x seconds =
      Function.update r x (Redis.expire (fun _ => r x) now y seconds y) := by
  have hlive : Redis.live (fun _ => r x) now y = r.live now x := rfl
  unfold Redis.expire
  rw [hlive]
  cases r.live now x with
  | none => simp
  | some e => by_cases hpos : 0 < seconds <;> simp [hpos, Redis.del]

theorem getAndRenew_eq (r : Redis) (now : ℤ) (x y : String) (renew : ℤ) :
    getAndRenew r now x renew = ((getAndRenew (fun _ => r x) now y renew).1,
      Function.update r x ((getAndRenew (fun _ => r x) now y renew).2 y)) := by
  have hlive : Redis.live (fun _ => r x) now y = r.live now x := rfl
  have httl : Redis.ttl (fun _ => r x) now y = r.ttl now x := rfl
  unfold getAndRenew
  rw [hlive, httl]
  by_cases hpos : 0 < r.ttl now x
  · simp only [hpos, if_true]
    rw [← expire_eq]
  · simp [hpos]

theorem exists_effect (now : ℤ) (hkey : op.key = some key) :
    ∃ f : Option Entry → Answer × Option Entry, ∀ name r,
      run name now op r = ((f (r (makeKey name key))).1,
        Function.update r (makeKey name key) (f (r (makeKey name key))).2) := by
  cases op with
  | set _ value expiresIn =>
    cases hkey
    cases hex : expiresIn.map Span.ex with
    | none =>
      refine ⟨fun _ => (.done, some ⟨value.encode, none⟩), fun name r => ?_⟩
      simp [run, Redis.set, hex]
    | some ex =>
      by_cases hpos : 0 < ex
      · refine ⟨fun _ => (.done, some ⟨value.encode, some (now + ex * 1000)⟩), fun name r => ?_⟩
        simp [run, Redis.set, hex, hpos]
      · refine ⟨fun e => (.responseError, e), fun name r => ?_⟩
        simp [run, Redis.set, hex, hpos]
  | get _ renewFor =>
    cases hkey
    cases hspan : renewFor.filter fun span => !span.isZero with
    | none =>
      refine ⟨fun e => (.data ((e.filter fun e => e.expireAt.all (now ≤ ·)).map Entry.data), e),
        fun name r => ?_⟩
      simp [run, Redis.live, hspan]
    | some span =>
      refine ⟨fun e => (.data (getAndRenew (fun _ => e) now key span.renewal).1,
        (getAndRenew (fun _ => e) now key span.renewal).2 key), fun name r => ?_⟩
      simp only [run, hspan]
      rw [getAndRenew_eq r now (makeKey name key) key]
  | delete _ =>
    cases hkey
    exact ⟨fun _ => (.done, none), fun name r => rfl⟩
  | deleteAll => cases hkey
  | existsKey _ =>
    cases hkey
    refine ⟨fun e => (.truth (Redis.live (fun _ => e) now key).isSome, e), fun name r => ?_⟩
    simp [run, Redis.live]
  | expiresIn _ =>
    cases hkey
    refine ⟨fun e => (.seconds (if Redis.ttl (fun _ => e) now key = -2 then none
      else some (Redis.ttl (fun _ => e) now key)), e), fun name r => ?_⟩
    have httl : Redis.ttl (fun _ => r (makeKey name key)) now key = r.ttl now (makeKey name key) :=
      rfl
    simp [run, httl]

theorem represents_update (h : Represents r spaces) (hn : PlainName name) (hk : KeyOf name key)
    (e : Option Entry) :
    Represents (Function.update r (makeKey name key) e)
      (Function.update spaces name (Function.update (spaces name) key e)) := by
  intro name' key' hn' hk'
  by_cases hname : name' = name
  · subst hname
    rw [Function.update_self]
    by_cases hkey : key' = key
    · subst hkey
      simp
    · have hne : makeKey name' key' ≠ makeKey name' key := fun heq =>
        hkey (makeKey_inj hn' hn hk' hk heq).2
      rw [Function.update_of_ne hne, Function.update_of_ne hkey]
      exact h name' key' hn' hk'
  · have hne : makeKey name' key' ≠ makeKey name key := fun heq =>
      hname (makeKey_inj hn' hn hk' hk heq).1
    rw [Function.update_of_ne hne, Function.update_of_ne hname]
    exact h name' key' hn' hk'

theorem run_apart (h : Represents r spaces) (hn : PlainName name)
    (hk : ∀ key ∈ op.key, KeyOf name key) (now : ℤ) :
    (run name now op r).1 = (runApart name now op spaces).1 ∧
      Represents (run name now op r).2 (runApart name now op spaces).2 := by
  cases hkey : op.key with
  | none =>
    obtain rfl : op = .deleteAll := by
      cases op <;> first | rfl | cases hkey
    by_cases hname : name = ""
    · simpa [run, runApart, hname] using h
    · simp only [run, runApart, if_neg hname, true_and]
      intro name' key' hn' hk'
      by_cases hprefix : name.toList <+: name'.toList
      · simp only [Redis.unlinkMatching, if_pos hprefix]
        rw [if_pos ((glob_makeKey_iff hn hname hn' hk').mpr hprefix)]
      · have hglob := fun hglob => hprefix ((glob_makeKey_iff hn hname hn' hk').mp hglob)
        simp only [Redis.unlinkMatching, if_neg hglob, if_neg hprefix]
        exact h name' key' hn' hk'
  | some key =>
    have hkeyOf : KeyOf name key := hk key hkey
    obtain ⟨f, hf⟩ := exists_effect now hkey
    have hown : runApart name now op spaces =
        ((run "" now op (spaces name)).1,
          Function.update spaces name (run "" now op (spaces name)).2) := by
      cases op <;> first | rfl | cases hkey
    have hbare : makeKey "" key = key := by simp [makeKey]
    rw [hown, hf name, hf ""]
    simp only [hbare, h name key hn hkeyOf, true_and]
    exact represents_update h hn hkeyOf _

/-- Calls of stores with plain namespaces answer as though each namespace had a Redis of its own,
but that bulk deletion also empties the namespaces that begin with its own. -/
theorem stores_are_apart {calls : List Call} {s : Redis × List Answer}
    (h : Trace stores WellNamed calls s) :
    ∃ x, Trace apart free calls x ∧ Represents s.1 x.1 ∧ s.2 = x.2 := by
  refine h.simulates
    (R := fun (s : Redis × List Answer) (x : Spaces × List Answer) =>
      Represents s.1 x.1 ∧ s.2 = x.2) ?_ ?_
  · rintro s ⟨hs, hanswers⟩
    refine ⟨(fun _ _ => none, []), ⟨rfl, rfl⟩, ?_, hanswers⟩
    rw [hs]
    exact fun _ _ _ _ => rfl
  · rintro l ⟨r, answers⟩ ⟨spaces, answers'⟩ c s' ⟨hR, rfl⟩ ⟨hn, hk⟩ hnext
    obtain ⟨hanswer, hR'⟩ := run_apart hR hn hk c.now
    cases Option.some.inj hnext
    exact ⟨_, rfl, hR', congrArg (fun answer => answers ++ [answer]) hanswer⟩

theorem prefix_withNamespace (store : RedisStore) (nested : String) :
    store.name.toList <+: (store.withNamespace nested).name.toList := by
  unfold RedisStore.withNamespace
  split
  · rename_i hname
    simp [hname]
  · exact ⟨('_' :: nested.toList), by simp [RedisStore.name]⟩

instance (name : String) : Decidable (PlainName name) := List.decidableBAll _ _

instance {S : Type} (past : List Call) (s : S) (c : Call) : Decidable (WellNamed past s c) :=
  inferInstanceAs (Decidable (PlainName c.store.name ∧
    ∀ key ∈ c.op.key, c.store.name = "" → ':' ∉ key.toList))

def jobs : RedisStore := ({} : RedisStore).withNamespace "jobs"

def parentAndChild : List Call :=
  [⟨{}, 0, .set "a" (.bytes ⟨#[1]⟩) none⟩, ⟨jobs, 0, .set "a" (.bytes ⟨#[2]⟩) none⟩,
    ⟨{}, 0, .get "a" none⟩, ⟨jobs, 0, .delete "a"⟩, ⟨{}, 0, .existsKey "a"⟩,
    ⟨jobs, 0, .set "a" (.bytes ⟨#[2]⟩) none⟩, ⟨{}, 0, .deleteAll⟩, ⟨jobs, 0, .get "a" none⟩]

theorem stores_are_apart_child :
    ∃ x, Trace apart free parentAndChild x ∧ x.2 =
      [.done, .done, .data (some ⟨#[1]⟩), .done, .truth true, .done, .done, .data none] := by
  have hrun : ((replay stores WellNamed [] parentAndChild (fun _ => none, [])).map Prod.snd) =
      some [.done, .done, .data (some ⟨#[1]⟩), .done, .truth true, .done, .done, .data none] := by
    decide +kernel
  obtain ⟨s, hs, hanswers⟩ := Option.map_eq_some_iff.mp hrun
  obtain ⟨x, hx, -, heq⟩ := stores_are_apart (trace_of_replay ⟨rfl, rfl⟩ hs)
  exact ⟨x, hx, heq.symm.trans hanswers⟩

/-- The call gets the key that stands at `x` in the Redis. -/
def Call.gets (x : String) (c : Call) : Bool :=
  match c.op with
  | .get key _ => makeKey c.store.name key = x
  | _ => false

def lastTouch (x : String) (start : ℤ) (calls : List Call) : ℤ :=
  calls.foldl (fun t c => if c.gets x then c.now else t) start

/-- The key is not written or deleted. Whoever gets it renews it for `seconds`, half a second before
it would expire or earlier. -/
def Renews (x : String) (seconds start : ℤ) : Condition (Redis × List Answer) Call
  | past, _, c =>
    match c.op with
    | .set key _ _ => makeKey c.store.name key ≠ x
    | .get key renewFor => makeKey c.store.name key = x →
      (∃ span ∈ renewFor, span.isZero = false ∧ span.renewal = seconds) ∧
        c.now + 500 ≤ lastTouch x start past + seconds * 1000
    | .delete key => makeKey c.store.name key ≠ x
    | .deleteAll => c.store.name = "" ∨ Glob.glob (c.store.name ++ "*:*").toList x.toList = false
    | .existsKey _ => True
    | .expiresIn _ => True

instance (x : String) (seconds start : ℤ) (past : List Call) (s : Redis × List Answer) (c : Call) :
    Decidable (Renews x seconds start past s c) :=
  match c with
  | ⟨store, _, .set key _ _⟩ => inferInstanceAs (Decidable (makeKey store.name key ≠ x))
  | ⟨store, now, .get key renewFor⟩ =>
    inferInstanceAs (Decidable (makeKey store.name key = x →
      (∃ span ∈ renewFor, span.isZero = false ∧ span.renewal = seconds) ∧
        now + 500 ≤ lastTouch x start past + seconds * 1000))
  | ⟨store, _, .delete key⟩ => inferInstanceAs (Decidable (makeKey store.name key ≠ x))
  | ⟨store, _, .deleteAll⟩ =>
    inferInstanceAs (Decidable
      (store.name = "" ∨ Glob.glob (store.name ++ "*:*").toList x.toList = false))
  | ⟨_, _, .existsKey _⟩ => isTrue trivial
  | ⟨_, _, .expiresIn _⟩ => isTrue trivial

theorem run_other {x : String} (hkey : op.key = some key) (hx : makeKey name key ≠ x) :
    (run name now op r).2 x = r x := by
  obtain ⟨f, hf⟩ := exists_effect now hkey
  rw [hf]
  exact Function.update_of_ne hx.symm _ _

theorem run_get {e : Entry} {t seconds : ℤ} {span : Span} (hr : r (makeKey name key) = some e)
    (ht : e.expireAt = some t) (hnow : now + 500 ≤ t) (hspan : span.isZero = false)
    (hrenewal : span.renewal = seconds) (hpos : 0 < seconds) :
    run name now (.get key (some span)) r = (.data (some e.data),
      Function.update r (makeKey name key)
        (some { e with expireAt := some (now + seconds * 1000) })) := by
  have hlive : r.live now (makeKey name key) = some e := by
    simp only [Redis.live, hr, Option.filter_some, ht, Option.all_some, decide_eq_true_eq]
    rw [if_pos (by omega)]
  have httl : 0 < r.ttl now (makeKey name key) := by
    simp only [Redis.ttl, hlive, ht, Option.elim_some]
    omega
  have hfilter : (some span).filter (fun span => !span.isZero) = some span := by
    simp [Option.filter_some, hspan]
  simp only [run, hfilter, getAndRenew, httl, if_true, hlive, Redis.expire, hrenewal, hpos,
    Option.map_some]

theorem lastTouch_concat (x : String) (start : ℤ) (past : List Call) (c : Call) :
    lastTouch x start (past ++ [c]) = if c.gets x then c.now else lastTouch x start past := by
  simp [lastTouch]

theorem renews_step {x : String} {data : ByteArray} {seconds start : ℤ} {past : List Call}
    {s : Redis × List Answer} {c : Call} (hpos : 0 < seconds)
    (hentry : s.1 x = some ⟨data, some (lastTouch x start past + seconds * 1000)⟩)
    (hok : Renews x seconds start past s c) :
    (run c.store.name c.now c.op s.1).2 x =
        some ⟨data, some (lastTouch x start (past ++ [c]) + seconds * 1000)⟩ ∧
      (c.gets x = true → (run c.store.name c.now c.op s.1).1 = .data (some data)) := by
  obtain ⟨store, now, op⟩ := c
  rw [lastTouch_concat]
  cases op with
  | set key value expiresIn =>
    exact ⟨(run_other rfl hok).trans hentry, fun h => by cases h⟩
  | get key renewFor =>
    by_cases hx : makeKey store.name key = x
    · subst hx
      obtain ⟨⟨span, hspan, hzero, hrenewal⟩, hnow⟩ := hok rfl
      cases hspan
      have hrun := run_get hentry rfl hnow hzero hrenewal hpos
      simp [hrun, Call.gets]
    · refine ⟨?_, fun h => absurd (by simpa [Call.gets] using h) hx⟩
      simpa [Call.gets, hx] using (run_other rfl hx).trans hentry
  | delete key => exact ⟨(run_other rfl hok).trans hentry, fun h => by cases h⟩
  | deleteAll =>
    refine ⟨?_, fun h => by cases h⟩
    simp only [run]
    split
    · exact hentry
    · rename_i hname
      have hglob := hok.resolve_left hname
      simp only [Redis.unlinkMatching]
      rw [if_neg (ne_true_of_eq_false hglob)]
      exact hentry
  | existsKey key => exact ⟨hentry, fun h => by cases h⟩
  | expiresIn key => exact ⟨hentry, fun h => by cases h⟩

/-- A key that was set for some seconds, and is renewed for as many by all who get it, stays as long
as it is got at least half a second before it would expire; each time it has its value. -/
theorem renewed_key_stays {store : RedisStore} {value : Value} {span : Span} {start : ℤ}
    {s s₁ s₂ : Redis × List Answer} {calls : List Call} (hpos : 0 < span.ex)
    (hset : stores.next s ⟨store, start, .set key value (some span)⟩ = some s₁)
    (hp : Path stores (Renews (makeKey store.name key) span.ex start) [] s₁ calls s₂) :
    ∃ answers, s₂.2 = s₁.2 ++ answers ∧
      List.Forall₂ (fun c answer => c.gets (makeKey store.name key) = true →
        answer = .data (some value.encode)) calls answers := by
  suffices hkept : s₂.1 (makeKey store.name key) = some ⟨value.encode,
      some (lastTouch (makeKey store.name key) start calls + span.ex * 1000)⟩ ∧
      ∃ answers, s₂.2 = s₁.2 ++ answers ∧
        List.Forall₂ (fun c answer => c.gets (makeKey store.name key) = true →
          answer = .data (some value.encode)) calls answers from hkept.2
  induction hp with
  | nil =>
    cases Option.some.inj hset
    refine ⟨?_, [], by simp, .nil⟩
    simp [Redis.set, hpos, lastTouch]
  | @snoc t u calls c _ hok hnext ih =>
    obtain ⟨hentry, answers, hanswers, hall⟩ := ih
    cases Option.some.inj hnext
    obtain ⟨hentry', hanswer⟩ := renews_step hpos hentry hok
    refine ⟨hentry', answers ++ [_], ?_, List.rel_append hall (.cons hanswer .nil)⟩
    rw [← List.append_assoc, ← hanswers]
    rfl

def session : List Call :=
  [⟨{}, 59000, .get "session" (some (.seconds 60))⟩,
    ⟨{}, 118000, .get "session" (some (.timedelta 60000000))⟩]

theorem renewed_key_stays_session :
    ∃ answers : List Answer, List.Forall₂ (fun c answer =>
      c.gets (makeKey "TAAS" "session") = true → answer = .data (some ⟨#[7]⟩)) session answers := by
  let call : Call := ⟨{}, 0, .set "session" (.bytes ⟨#[7]⟩) (some (.seconds 60))⟩
  let s₁ : Redis × List Answer :=
    (Function.update (fun _ => none) (makeKey "TAAS" "session") (some ⟨⟨#[7]⟩, some 60000⟩),
      [.done])
  have hset : stores.next (fun _ => none, []) call = some s₁ := rfl
  have hrun : (replay stores (Renews (makeKey "TAAS" "session") 60 0) [] session s₁).isSome := by
    decide +kernel
  obtain ⟨s₂, hs₂⟩ := Option.isSome_iff_exists.mp hrun
  obtain ⟨answers, -, hanswers⟩ :=
    renewed_key_stays (by decide) hset (replay_path hs₂)
  exact ⟨answers, hanswers⟩

end Taas.RedisStores
