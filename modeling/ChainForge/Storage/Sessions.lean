import ChainForge.Lib.Machine
import ChainForge.Storage.WriteBatch

/-!
# Sessions of the database

The database as its clients see it: what it answers to any sequence of calls, `open` and `close`
included, and what it answers to several threads.

A call looks at `is_open_` before it takes the lock.  `open` and `close` take no lock: `open` looks at
`is_open_` and at the data first and sets `is_open_` after that, and `close` clears the data first and
`is_open_` after that.

* `Content`, `Content.serve`   what the database is for: a map while it is open, and nothing between
                               the sessions;
* `serve_represents`           **the database refines it**, call by call;
* `Clients.step`               the calls of several threads in their parts;
* `storage_linearizable`       **the calls of several threads** are those of one client, in the order in
                               which they return, if no call is under way while `close` is and no two
                               calls of `open` are under way at once.
-/

set_option linter.unusedSectionVars false

namespace ChainForge
namespace Storage
open Machine

/-- the calls that take the lock -/
inductive Access where
  | get (key : Key)
  | put (key : Key) (value : Value)
  | remove (key : Key)
  | write (batch : Option MemoryWriteBatch)

inductive Request where
  | openWith (config : DatabaseConfig)
  | close
  | access (a : Access)

/-- a `StorageResult<void>` has no value -/
abbrev Reply := StorageResult Value

namespace MemoryDatabase

def access (db : MemoryDatabase) : Access → Reply × MemoryDatabase
  | .get key => (db.get key, db)
  | .put key value => (⟨[], (db.put key value).1⟩, (db.put key value).2)
  | .remove key => (⟨[], (db.remove key).1⟩, (db.remove key).2)
  | .write batch => (⟨[], (db.write batch).1⟩, (db.write batch).2)

def serve (db : MemoryDatabase) : Request → Reply × MemoryDatabase
  | .openWith config => (⟨[], (db.openWith config).1⟩, (db.openWith config).2)
  | .close => (⟨[], db.close.1⟩, db.close.2)
  | .access a => db.access a

end MemoryDatabase

/-! ## what it is for -/

/-- the values under all keys, while the database is open -/
abbrev Content := Option (Key → Option Value)

namespace Content

def record (m : Key → Option Value) (op : Operation) : Key → Option Value :=
  Function.update m op.key op.stored

def access (m : Key → Option Value) : Access → Reply × (Key → Option Value)
  | .get key => ((m key).elim ⟨[], .notFound⟩ (⟨·, .success⟩), m)
  | .put key value => (⟨[], .success⟩, record m (.put key value))
  | .remove key =>
    ((m key).elim ⟨[], .notFound⟩ fun _ => ⟨[], .success⟩, record m (.remove key))
  | .write none => (⟨[], .invalidArgument⟩, m)
  | .write (some ops) => (⟨[], .success⟩, ops.foldl record m)

/-- every session starts with nothing -/
def serve : Content → Request → Reply × Content
  | none, .openWith _ => (⟨[], .success⟩, some fun _ => none)
  | some m, .openWith _ => (⟨[], .alreadyExists⟩, some m)
  | _, .close => (⟨[], .success⟩, none)
  | none, .access _ => (⟨[], .ioError⟩, none)
  | some m, .access a => ((access m a).1, some (access m a).2)

end Content

/-- the data of an open database are the content, and a closed one has none -/
inductive Represents : MemoryDatabase → Content → Prop where
  | closed : Represents ⟨∅, false⟩ none
  | opened (data : UMap Key Value) (m : Key → Option Value) (h : ∀ k, data.lookup k = m k) :
      Represents ⟨data, true⟩ (some m)

section
variable {data : UMap Key Value} {m : Key → Option Value}

theorem lookup_record (h : ∀ k, data.lookup k = m k) (op : Operation) (k : Key) :
    (op.apply data).lookup k = Content.record m op k := by
  rw [Operation.lookup_apply, h]
  exact (Function.update_apply m op.key op.stored k).symm

theorem lookup_records (h : ∀ k, data.lookup k = m k) (ops : List Operation) (k : Key) :
    (ops.foldl Operation.apply data).lookup k = ops.foldl Content.record m k := by
  induction ops generalizing data m with
  | nil => exact h k
  | cons op ops ih => exact ih (lookup_record h op)

/-- a call on an open database -/
theorem access_represents (h : ∀ k, data.lookup k = m k) (a : Access) :
    (MemoryDatabase.access ⟨data, true⟩ a).1 = (Content.access m a).1 ∧
      Represents (MemoryDatabase.access ⟨data, true⟩ a).2 (some (Content.access m a).2) := by
  cases a with
  | get key =>
    refine ⟨?_, .opened data m h⟩
    show MemoryDatabase.get ⟨data, true⟩ key = (m key).elim _ _
    rw [← h key]
    unfold MemoryDatabase.get
    cases data.lookup key <;> rfl
  | put key value => exact ⟨rfl, .opened _ _ (lookup_record h (.put key value))⟩
  | remove key =>
    have hrest : Represents (MemoryDatabase.remove ⟨data, true⟩ key).2
        (some (Content.record m (.remove key))) := by
      show Represents (MemoryDatabase.perform ⟨data, true⟩ (.remove key)) _
      rw [MemoryDatabase.perform_eq]
      exact .opened _ _ (lookup_record h (.remove key))
    refine ⟨?_, hrest⟩
    show (⟨[], (MemoryDatabase.remove ⟨data, true⟩ key).1⟩ : Reply) = (m key).elim _ _
    rw [← h key]
    unfold MemoryDatabase.remove
    cases data.lookup key <;> rfl
  | write batch =>
    cases batch with
    | none => exact ⟨rfl, .opened data m h⟩
    | some ops => exact ⟨rfl, .opened _ _ (lookup_records h ops)⟩

/-- `error_if_exists` finds nothing: what `close` leaves is empty -/
theorem openWith_closed (config : DatabaseConfig) :
    MemoryDatabase.openWith ⟨∅, false⟩ config = (.success, ⟨∅, true⟩) := by
  obtain ⟨errorIfExists⟩ := config
  cases errorIfExists <;> rfl

/-- **One call.** -/
theorem serve_represents {db : MemoryDatabase} {c : Content} (hdb : Represents db c) (r : Request) :
    (db.serve r).1 = (c.serve r).1 ∧ Represents (db.serve r).2 (c.serve r).2 := by
  cases hdb with
  | closed =>
    cases r with
    | openWith config =>
      show (⟨[], (MemoryDatabase.openWith ⟨∅, false⟩ config).1⟩ : Reply) = _ ∧
        Represents (MemoryDatabase.openWith ⟨∅, false⟩ config).2 _
      rw [openWith_closed]
      exact ⟨rfl, .opened ∅ _ fun _ => rfl⟩
    | close => exact ⟨rfl, .closed⟩
    | access a => cases a <;> exact ⟨rfl, .closed⟩
  | opened data m h =>
    cases r with
    | openWith config => exact ⟨rfl, .opened data m h⟩
    | close => exact ⟨rfl, .closed⟩
    | access a => exact access_represents h a

end

/-! ## several threads -/

structure Clients where
  db : MemoryDatabase := .make
  /-- calls that have found the database open and wait for the lock -/
  waiting : List Access := []
  /-- calls of `open` that have found the database closed and still have to set `is_open_` -/
  opening : List DatabaseConfig := []
  /-- calls of `close` that have cleared the data and still have to clear `is_open_` -/
  closing : Nat := 0
  /-- the calls that have got their answer, in this order -/
  log : List (Request × Reply) := []

inductive ClientEvent where
  | call (r : Request)
  /-- the call `i` of those that wait gets the lock -/
  | locked (i : Nat)
  /-- the call `i` of `open` sets `is_open_` -/
  | opened (i : Nat)
  | closed

namespace Clients
variable (s : Clients)

def answer (r : Request) (reply : Reply) : Clients := { s with log := s.log ++ [(r, reply)] }

/-- a call up to the lock, or up to its first write -/
def call : Request → Clients
  | .openWith config =>
    if (s.db.openWith config).1 = .success then { s with opening := s.opening ++ [config] }
    else s.answer (.openWith config) ⟨[], (s.db.openWith config).1⟩
  | .close =>
    if !s.db.isOpen then s.answer .close ⟨[], .success⟩
    else { s with db := { s.db with data := ∅ }, closing := s.closing + 1 }
  | .access a =>
    if !s.db.isOpen then s.answer (.access a) ⟨[], .ioError⟩
    else { s with waiting := s.waiting ++ [a] }

/-- under the lock a call does not look at `is_open_` again -/
def locked (i : Nat) (a : Access) : Clients :=
  let r := MemoryDatabase.access ⟨s.db.data, true⟩ a
  { s with db := { s.db with data := r.2.data }, waiting := s.waiting.eraseIdx i }.answer (.access a) r.1

def opened (i : Nat) (config : DatabaseConfig) : Clients :=
  { s with db := { s.db with isOpen := true }, opening := s.opening.eraseIdx i }.answer
    (.openWith config) ⟨[], .success⟩

def closed : Clients :=
  if s.closing = 0 then s
  else
    { s with db := { s.db with isOpen := false }, closing := s.closing - 1 }.answer .close ⟨[], .success⟩

def step : ClientEvent → Clients
  | .call r => s.call r
  | .locked i => (s.waiting[i]?).elim s (s.locked i)
  | .opened i => (s.opening[i]?).elim s (s.opened i)
  | .closed => s.closed

/-- no call is under way while `close` is, and no other `open` while `open` is -/
def Quiet : ClientEvent → Prop
  | .call .close => s.closing = 0 ∧ s.waiting = []
  | .call (.openWith _) => s.closing = 0 ∧ s.opening = []
  | .call (.access _) => s.closing = 0
  | _ => True

end Clients

/-- one client, with the log of its calls -/
def oneClient (p : List (Request × Reply) × Content) (r : Request) : List (Request × Reply) × Content :=
  (p.1 ++ [(r, (p.2.serve r).1)], (p.2.serve r).2)

/-- the log is that of a client who leaves the content `c` -/
def Served (s : Clients) (c : Content) : Prop :=
  run oneClient ([], none) (s.log.map Prod.fst) = (s.log, c)

/-- the state of the database in terms of the log -/
inductive Linear (s : Clients) : Prop where
  | idle (c : Content) (hlog : Served s c) (hclosing : s.closing = 0) (hdb : Represents s.db c)
      (hwaiting : s.waiting ≠ [] → c ≠ none) (hopening : s.opening ≠ [] → c = none)
      (hone : s.opening.length ≤ 1)
  /-- between the two parts of a `close` -/
  | closing (c : Content) (hlog : Served s c) (hclosing : s.closing = 1) (hwaiting : s.waiting = [])
      (hopening : s.opening = []) (hdata : s.db.data = ∅)

theorem Served.answer {s : Clients} {c : Content} (hs : Served s c) (s' : Clients)
    (hlog : s'.log = s.log) (r : Request) {reply : Reply} (hreply : reply = (c.serve r).1) :
    Served (s'.answer r reply) (c.serve r).2 := by
  unfold Served Clients.answer at *
  dsimp only
  rw [hlog, List.map_append, List.map_singleton, run_concat, hs, hreply]
  rfl

theorem Linear.call {s : Clients} (hs : Linear s) (r : Request) (hquiet : s.Quiet (.call r)) :
    Linear (s.call r) := by
  cases hs with
  | closing c hlog hclosing hwaiting hopening hdata =>
    have h0 : s.closing = 0 := by
      cases r with
      | close => exact hquiet.1
      | openWith config => exact hquiet.1
      | access a => exact hquiet
    rw [hclosing] at h0
    cases h0
  | idle c hlog hclosing hdb hwaiting hopening hone =>
    obtain ⟨db, waiting, opening, closing, log⟩ := s
    cases hdb with
    | closed =>
      cases r with
      | openWith config =>
        obtain rfl : opening = [] := hquiet.2
        have hcall : Clients.call ⟨⟨∅, false⟩, waiting, [], closing, log⟩ (.openWith config)
            = ⟨⟨∅, false⟩, waiting, [config], closing, log⟩ :=
          if_pos (congrArg Prod.fst (openWith_closed config))
        rw [hcall]
        exact .idle none hlog hclosing .closed hwaiting (fun _ => rfl) (Nat.le_refl 1)
      | close => exact .idle _ (hlog.answer _ rfl .close rfl) hclosing .closed hwaiting hopening hone
      | access a =>
        exact .idle _ (hlog.answer _ rfl (.access a) rfl) hclosing .closed hwaiting hopening hone
    | opened data m h =>
      have hnone : opening = [] := by
        by_contra hne
        cases hopening hne
      cases r with
      | openWith config =>
        exact .idle (some m) (hlog.answer _ rfl (.openWith config) rfl) hclosing (.opened data m h)
          hwaiting hopening hone
      | close => exact .closing (some m) hlog (congrArg (· + 1) hclosing) hquiet.2 hnone rfl
      | access a =>
        exact .idle (some m) hlog hclosing (.opened data m h) (fun _ => Option.some_ne_none m) hopening
          hone

theorem Linear.locked {s : Clients} (hs : Linear s) {i : Nat} {a : Access}
    (ha : s.waiting[i]? = some a) : Linear (s.locked i a) := by
  have hsome : s.waiting ≠ [] := by
    intro h
    rw [h] at ha
    cases ha
  cases hs with
  | closing c hlog hclosing hnone hopening hdata => exact absurd hnone hsome
  | idle c hlog hclosing hdb hwaiting hopening hone =>
    obtain ⟨db, waiting, opening, closing, log⟩ := s
    cases hdb with
    | closed => exact absurd rfl (hwaiting hsome)
    | opened data m h =>
      obtain ⟨hreply, hrest⟩ := access_represents h a
      refine .idle _ (hlog.answer _ rfl (.access a) hreply) hclosing ?_
        (fun _ => Option.some_ne_none _) (fun hne => absurd (hopening hne) (Option.some_ne_none m)) hone
      show Represents ⟨(MemoryDatabase.access ⟨data, true⟩ a).2.data, true⟩ _
      generalize (MemoryDatabase.access ⟨data, true⟩ a).2 = db' at hrest
      cases hrest with
      | opened data' _ h' => exact .opened data' _ h'

/-- the only `open` that is under way has found a closed database, and nobody has opened it since -/
theorem Linear.opened {s : Clients} (hs : Linear s) {i : Nat} {config : DatabaseConfig}
    (ho : s.opening[i]? = some config) : Linear (s.opened i config) := by
  have hsome : s.opening ≠ [] := by
    intro h
    rw [h] at ho
    cases ho
  cases hs with
  | closing c hlog hclosing hwaiting hopening hdata => exact absurd hopening hsome
  | idle c hlog hclosing hdb hwaiting hopening hone =>
    obtain ⟨db, waiting, opening, closing, log⟩ := s
    obtain rfl : c = none := hopening hsome
    cases hdb with
    | closed =>
      have hlast : opening.eraseIdx i = [] := by
        have hi : i < opening.length := (List.getElem?_eq_some_iff.mp ho).1
        have hlen : opening.length ≤ 1 := hone
        refine List.eq_nil_of_length_eq_zero ?_
        rw [List.length_eraseIdx_of_lt hi]
        omega
      refine .idle _ (hlog.answer _ rfl (.openWith config) rfl) hclosing (.opened ∅ _ fun _ => rfl)
        (fun _ => Option.some_ne_none _) (fun hne => absurd hlast hne) ?_
      show (opening.eraseIdx i).length ≤ 1
      rw [hlast]
      exact Nat.zero_le 1

theorem Linear.closed {s : Clients} (hs : Linear s) : Linear s.closed := by
  unfold Clients.closed
  cases hs with
  | idle c hlog hclosing hdb hwaiting hopening hone =>
    rw [if_pos hclosing]
    exact .idle c hlog hclosing hdb hwaiting hopening hone
  | closing c hlog hclosing hwaiting hopening hdata =>
    rw [if_neg (by rw [hclosing]; exact Nat.one_ne_zero)]
    have hserve : c.serve .close = (⟨[], .success⟩, none) := by cases c <;> rfl
    have hnew := hlog.answer
      { s with db := { s.db with isOpen := false }, closing := s.closing - 1 } rfl .close
      (congrArg Prod.fst hserve).symm
    rw [hserve] at hnew
    refine .idle none hnew (congrArg (· - 1) hclosing) ?_ (fun h => absurd hwaiting h)
      (fun h => absurd hopening h) ?_
    · show Represents ⟨s.db.data, false⟩ none
      rw [hdata]
      exact .closed
    · show s.opening.length ≤ 1
      rw [hopening]
      exact Nat.zero_le 1

theorem step_linear {s : Clients} {e : ClientEvent} (hs : Linear s) (hquiet : s.Quiet e) :
    Linear (s.step e) := by
  cases e with
  | call r => exact hs.call r hquiet
  | closed => exact hs.closed
  | locked i =>
    show Linear ((s.waiting[i]?).elim s (s.locked i))
    cases ha : s.waiting[i]? with
    | none => exact hs
    | some a => exact hs.locked ha
  | opened i =>
    show Linear ((s.opening[i]?).elim s (s.opened i))
    cases ho : s.opening[i]? with
    | none => exact hs
    | some config => exact hs.opened ho

/-- **The database under several threads.**  Whatever the order in which the calls of the threads look
at the database, get the lock and return: as long as no call is under way while `close` is, and no two
calls of `open` are under way at once, every answer is the one that a map would give to a single
client, who makes the calls in the order of their answers and finds nothing after each `open`. -/
theorem storage_linearizable (events : List ClientEvent)
    (hquiet : EveryStep Clients.step Clients.Quiet {} events) :
    let s := run Clients.step {} events
    ∃ c, run oneClient ([], none) (s.log.map Prod.fst) = (s.log, c) ∧
      (s.closing = 0 → Represents s.db c) := by
  intro s
  have hs : Linear s := run_inv_of Linear (fun _ _ => step_linear) events
    (.idle none rfl rfl .closed (fun h => absurd rfl h) (fun _ => rfl) (Nat.zero_le 1)) hquiet
  cases hs with
  | idle c hlog _ hdb _ _ _ => exact ⟨c, hlog, fun _ => hdb⟩
  | closing c hlog hclosing _ _ _ =>
    refine ⟨c, hlog, fun h0 => ?_⟩
    rw [hclosing] at h0
    cases h0

/-- two threads put and get at once; then the database is closed and opened again, while a thread looks
for a key -/
def twoThreads : List ClientEvent :=
  [.call (.openWith ⟨true⟩), .opened 0, .call (.access (.get [1])), .call (.access (.put [1] [5])),
   .locked 1, .locked 0, .call .close, .closed, .call (.openWith ⟨true⟩), .call (.access (.get [1])),
   .opened 0, .call (.access (.get [1])), .locked 0]

theorem storage_linearizable_twoThreads :
    let s := run Clients.step {} twoThreads
    s.log.map Prod.snd = [⟨[], .success⟩, ⟨[], .success⟩, ⟨[5], .success⟩, ⟨[], .success⟩,
      ⟨[], .ioError⟩, ⟨[], .success⟩, ⟨[], .notFound⟩] ∧
      ∃ c, run oneClient ([], none) (s.log.map Prod.fst) = (s.log, c) ∧
        (s.closing = 0 → Represents s.db c) :=
  ⟨by decide, storage_linearizable twoThreads
    ⟨⟨rfl, rfl⟩, trivial, rfl, rfl, trivial, trivial, ⟨rfl, rfl⟩, trivial, ⟨rfl, rfl⟩, rfl, trivial, rfl,
      trivial, trivial⟩⟩

-- two calls of `open` at once succeed both
example : (run Clients.step {} [.call (.openWith ⟨false⟩), .call (.openWith ⟨false⟩), .opened 0,
    .opened 0]).log.map Prod.snd = [⟨[], .success⟩, ⟨[], .success⟩] := by
  decide

-- a put that has found the database open before `close` stores its value after it, where the next
-- session finds it
example : (run Clients.step {} [.call (.openWith ⟨false⟩), .opened 0, .call (.access (.put [1] [5])),
    .call .close, .closed, .locked 0, .call (.openWith ⟨false⟩), .opened 0]).db.get [1]
      = ⟨[5], .success⟩ := by
  decide

end Storage
end ChainForge
