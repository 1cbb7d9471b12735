import Timetable.Codec.Audit
import Timetable.Codec.Config
import Timetable.Proofs.Denotations

/-!
# What is written is read back

Snapshots, policies, events, entries of the audit trail and both kinds of configurations are decoded
from the text that they are encoded as, each to what it was, without any condition on their values.
-/
namespace Timetable

open Json
open Json.Record (reads_required reads_optional reads_defaulted)

theorem ofString_ne_null (s : String) : ofString s ≠ .null := nofun

theorem record_ne_null (members : List (String × Value)) : record members ≠ .null := nofun

/-! ## Recurrences -/

namespace Pattern

variable {room : Nat} {kind : PatternKind} {members : List (String × Value)} {p : Pattern}

/-- Members that do not name the kind are held back, the last one first. -/
theorem scanKind_held (h : ∀ m ∈ members, m.1 ≠ "kind" ∧ readable room m.2 = .ok ())
    (kind : PatternKind) (held : List (Quotation × Value)) :
    scanKind room (some kind) held (named members) =
      .ok (kind, (named members).reverse ++ held) := by
  induction members generalizing held with
  | nil => rfl
  | cons m members ih =>
    obtain ⟨name, v⟩ := m
    obtain ⟨hname, hreadable⟩ := h _ (List.mem_cons_self ..)
    have hrest := ih (fun m hm => h m (List.mem_cons_of_mem _ hm)) ((.sound name, v) :: held)
    simp [scanKind, sound, hname, hreadable, hrest, bind, Except.bind]

/-- A pattern whose kind comes first is decoded from the members behind it. -/
theorem ofJson_record {word : String} (hkind : PatternKind.vocabulary.meaning word = .ok kind)
    (hmembers : ∀ m ∈ members, m.1 ≠ "kind" ∧ readable (room - 1) m.2 = .ok ())
    (hp : ofMembers kind (named members) = .ok p) :
    ofJson room (record (("kind", ofString word) :: members)) = .ok p := by
  have hword : PatternKind.ofJson (ofString word) = .ok kind := hkind
  have hheld := scanKind_held hmembers kind []
  rw [List.append_nil] at hheld
  have hscan : scanKind (room - 1) none [] ((.sound "kind", ofString word) :: named members) =
      .ok (kind, (named members).reverse) := by
    simp [scanKind, sound, hword, hheld, bind, Except.bind]
  simp only [record_eq, named_cons, ofJson, hscan, bind, Except.bind, List.reverse_reverse, hp]

end Pattern

theorem readable_ofNat {n : Nat} (h : n < wordLimit) (room : Nat) :
    readable room (ofNat n) = .ok () := by
  simp only [ofNat, readable, number_ofNat h, Except.map]

theorem readable_ofString (s : String) (room : Nat) : readable room (ofString s) = .ok () := by
  simp only [ofString, readable, sound, Except.map]

theorem denotes_pattern (room : Nat) (p : Pattern) : Denotes (Pattern.ofJson room) p.toJson p := by
  cases p with
  | every amount unit =>
    have hreads := ((reads_required "amount" (denotes_word amount)).map Pattern.every).seq
      (reads_required "unit" (Vocabulary.denotes_heldWord (meaning_unit unit)))
    refine ⟨legible_record ?_, Pattern.ofJson_record rfl ?_ (hreads.ofMembers (by simp) false)⟩
    · simpa [legible_ofString] using hreads.legible
    · simp [readable_ofNat amount.toNat_lt, readable_ofString]
  | _ =>
    exact ⟨legible_record (by simp [legible_ofString]),
      Pattern.ofJson_record rfl (by simp) rfl⟩

theorem denotes_policy (room : Nat) (p : Policy) : Denotes (Policy.ofJson room) p.toJson p :=
  ((((reads_required "pattern" (denotes_pattern _ p.pattern)).map Policy.mk).seq
    (reads_optional "end_time" denotes_instant (fun _ => ofString_ne_null _) p.endTime)).seq
    (reads_required "max_executions" (denotes_short _))).seq
    (reads_required "enabled" (denotes_bool _)) |>.denotes (by simp) _

/-! ## Tasks -/

theorem denotes_event (e : Event) : Denotes Event.ofJson e.toJson e := by
  cases e with
  | failed error => exact ⟨legible_record (by simp [Event.error?, legible_ofString]), rfl⟩
  | _ => exact ⟨legible_record (by simp [Event.error?, legible_ofString]), rfl⟩

theorem denotes_snapshot (s : Snapshot) : Denotes Snapshot.ofJson s.toJson s :=
  (((((((((((((((reads_required "id" (denotes_id s.id)).map Snapshot.mk).seq
    (reads_required "name" (denotes_string s.name))).seq
    (reads_required "description" (denotes_string s.description))).seq
    (reads_required "priority" (denotes_priority s.priority))).seq
    (reads_required "status" (denotes_status s.status))).seq
    (reads_required "created_at" (denotes_instant s.createdAt))).seq
    (reads_optional "scheduled_at" denotes_instant (fun _ => ofString_ne_null _) s.scheduledAt)).seq
    (reads_optional "last_execution" denotes_instant (fun _ => ofString_ne_null _)
      s.lastExecution)).seq
    (reads_optional "next_execution" denotes_instant (fun _ => ofString_ne_null _)
      s.nextExecution)).seq
    (reads_required "execution_count" (denotes_short s.executionCount))).seq
    (reads_optional "last_error" denotes_string ofString_ne_null s.lastError)).seq
    (reads_optional "last_duration" denotes_span (fun _ => record_ne_null _) s.lastDuration)).seq
    (reads_required "retry_count" (denotes_short s.retryCount))).seq
    (reads_required "max_retries" (denotes_short s.maxRetries))).seq
    (reads_optional "recurrence" (denotes_policy _) (fun _ => record_ne_null _) s.recurrence)
      |>.denotes (by simp) _

theorem denotes_auditEvent (e : AuditEvent) : Denotes AuditEvent.ofJson e.toJson e :=
  ((((((reads_required "event_id" (denotes_string e.eventId)).map AuditEvent.mk).seq
    (reads_required "task_id" (denotes_id e.taskId))).seq
    (reads_required "task_name" (denotes_string e.taskName))).seq
    (reads_required "action" (denotes_string e.action))).seq
    (reads_required "created_at" (denotes_instant e.createdAt))).seq
    (reads_optional "payload" denotes_string ofString_ne_null e.payload) |>.denotes (by simp) _

/-! ## Configurations -/

theorem denotes_config (c : Config) : Denotes Config.ofJson c.toJson c :=
  ((((((((reads_defaulted "tick_interval_ms" (denotes_word c.tickIntervalMs) _).map Config.mk).seq
    (reads_defaulted "core_pool_size" (denotes_size c.corePoolSize) _)).seq
    (reads_defaulted "max_pool_size" (denotes_size c.maxPoolSize) _)).seq
    (reads_defaulted "keep_alive_ms" (denotes_word c.keepAliveMs) _)).seq
    (reads_defaulted "retry_delay_ms" (denotes_word c.retryDelayMs) _)).seq
    (reads_defaulted "shutdown_grace_ms" (denotes_word c.shutdownGraceMs) _)).seq
    (reads_defaulted "thread_stack_size" (denotes_size c.threadStackSize) _)).seq
    (reads_defaulted "auto_tick" (denotes_bool c.autoTick) _) |>.denotes (by simp) _

theorem denotes_poolConfig (c : PoolConfig) : Denotes PoolConfig.ofJson c.toJson c :=
  (((((reads_required "core_size" (denotes_size c.coreSize)).map PoolConfig.mk).seq
    (reads_required "max_size" (denotes_size c.maxSize))).seq
    (reads_required "keep_alive" (denotes_span c.keepAlive))).seq
    (reads_required "thread_stack_size" (denotes_size c.stackSize))).seq
    (reads_required "thread_name_prefix" (denotes_string c.workerName)) |>.denotes (by simp) _

/-! ## The round trip -/

/-- Decoding the text that a value is encoded as succeeds and gives the value back. -/
def RoundTrips {α : Type} (encode : α → Value) (decode : Value → Except Fault α) : Prop :=
  ∀ a, (Value.ofText? (encode a).text).map decode = some (.ok a)

/-- Everything that is written as a text of its own is read back from it. -/
theorem all_round_trip :
    RoundTrips Snapshot.toJson Snapshot.ofJson ∧
    RoundTrips Policy.toJson (Policy.ofJson depthLimit) ∧
      RoundTrips Event.toJson Event.ofJson ∧ RoundTrips AuditEvent.toJson AuditEvent.ofJson ∧
      RoundTrips Config.toJson Config.ofJson ∧ RoundTrips PoolConfig.toJson PoolConfig.ofJson := by
  refine ⟨?_, ?_, ?_, ?_, ?_, ?_⟩
  · exact fun s => (denotes_snapshot s).of_text
  · exact fun p => (denotes_policy depthLimit p).of_text
  · exact fun e => (denotes_event e).of_text
  · exact fun e => (denotes_auditEvent e).of_text
  · exact fun c => (denotes_config c).of_text
  · exact fun c => (denotes_poolConfig c).of_text

end Timetable
