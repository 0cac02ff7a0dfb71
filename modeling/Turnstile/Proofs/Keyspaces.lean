import Mathlib.Logic.Function.Basic
import Turnstile.Proofs.Names
import Turnstile.Remote.Guards

/-!
# Names that are told apart

Buckets and latches of a process and everything at the server have names that are built from the
keys of slots. Each of the three is a key space of its own, and in each the name tells what it is
for: the role, the slot and, where a client has a bucket to itself, the client
(`names_injective`).

At the server that holds for any keys. The part of a name before the first colon is the role, except
that the bucket of a client begins as the bucket that all share, and a digit at the end sets it
apart from that one. In a process the shared bucket and the fair lock have the key itself for a
name, and only what is known of keys tells the others from them.
-/

namespace Turnstile

open Text

/-- A text without colons before the first colon is told, and so is what comes after it. -/
theorem append_colon_inj {a b x y : List Char} (ha : ':' ∉ a) (hb : ':' ∉ b)
    (h : a ++ ':' :: x = b ++ ':' :: y) : a = b ∧ x = y := by
  induction a generalizing b with
  | nil =>
    cases b with
    | nil => exact ⟨rfl, (List.cons.inj h).2⟩
    | cons c b => exact absurd ((List.cons.inj h).1 ▸ List.mem_cons_self ..) hb
  | cons c a ih =>
    cases b with
    | nil => exact absurd ((List.cons.inj h).1 ▸ List.mem_cons_self ..) ha
    | cons d b =>
      obtain ⟨rfl, htail⟩ := List.cons.inj h
      obtain ⟨rfl, hrest⟩ := ih (mt (List.mem_cons_of_mem _) ha) (mt (List.mem_cons_of_mem _) hb) htail
      exact ⟨rfl, hrest⟩

/-! ## Names at the server -/

namespace Remote.Name

variable {n n' : Name} {key key' : String} {u u' : Ulid}

/-- What a name has before the first colon. -/
def role : Name → String
  | lock _ => "fair_lock"
  | queue _ => "fair_lock_queue"
  | heartbeats _ => "fair_lock_timeout"
  | pool _ => "semaphore"
  | bucket _ | clientBucket _ _ => "rate_limit"
  | flag _ => "feature_flag"

def braced (key : String) : List Char := '{' :: key.toList ++ ['}']

/-- What a name has after the first colon. -/
def rest : Name → List Char
  | lock key | queue key | heartbeats key | pool key | bucket key => braced key
  | clientBucket key client => braced key ++ ":client:".toList ++ client.text
  | flag name => name.toList

theorem toList_text (n : Name) : n.text.toList = n.role.toList ++ ':' :: n.rest := by
  cases n <;> simp [text, tagged, role, rest, braced]

theorem colon_not_mem_role (n : Name) : ':' ∉ n.role.toList := by
  unfold role
  split <;> decide

theorem text_eq_text (h : n.text = n'.text) : n.role = n'.role ∧ n.rest = n'.rest := by
  have hlist := congrArg String.toList h
  rw [toList_text, toList_text] at hlist
  obtain ⟨hrole, hrest⟩ := append_colon_inj n.colon_not_mem_role n'.colon_not_mem_role hlist
  exact ⟨String.toList_inj.1 hrole, hrest⟩

theorem braced_inj (h : braced key = braced key') : key = key' :=
  String.toList_inj.1 (List.append_cancel_right (List.cons.inj h).2)

/-- The bucket of a client ends in a digit. -/
theorem braced_ne_client : braced key ≠ braced key' ++ ":client:".toList ++ u.text := by
  obtain ⟨front, i, htext⟩ :
      ∃ front i, u.text = front ++ [Ulid.alphabet.getD (i % 32) '0'] := ⟨_, _, rfl⟩
  have hdigit : ∀ i < 32, Ulid.alphabet.getD i '0' ≠ '}' := by decide
  intro h
  rw [htext, ← List.append_assoc] at h
  have hlast := (List.append_inj' h rfl).2
  exact hdigit _ (Nat.mod_lt _ (by decide)) (List.cons.inj hlast).1.symm

theorem braced_client_inj
    (h : braced key ++ ":client:".toList ++ u.text = braced key' ++ ":client:".toList ++ u'.text) :
    key = key' ∧ u = u' := by
  obtain ⟨hfront, hclient⟩ := List.append_inj' h (by rw [u.length_text, u'.length_text])
  exact ⟨braced_inj (List.append_cancel_right hfront), Ulid.text_inj hclient⟩

theorem text_inj : Function.Injective text := by
  intro n n' h
  obtain ⟨hrole, hrest⟩ := text_eq_text h
  -- What is left are the pairs that have their role in common.
  cases n <;> cases n' <;> simp [role] at hrole
  case lock.lock => exact congrArg lock (braced_inj hrest)
  case queue.queue => exact congrArg queue (braced_inj hrest)
  case heartbeats.heartbeats => exact congrArg heartbeats (braced_inj hrest)
  case pool.pool => exact congrArg pool (braced_inj hrest)
  case bucket.bucket => exact congrArg bucket (braced_inj hrest)
  case bucket.clientBucket => exact absurd hrest braced_ne_client
  case clientBucket.bucket => exact absurd hrest.symm braced_ne_client
  case clientBucket.clientBucket =>
    obtain ⟨rfl, rfl⟩ := braced_client_inj hrest
    rfl
  case flag.flag => exact congrArg flag (String.toList_inj.1 hrest)

end Remote.Name

/-! ## What the names are for -/

/-- A slot that starts on a whole second. -/
structure WholeSlot where
  slot : Slot
  whole : slot.time.IsWhole

namespace WholeSlot

/-- The text of the key. -/
def key (s : WholeSlot) : String := s.slot.key.text

theorem isSlotKey (s : WholeSlot) : IsSlotKey s.key := ⟨s.slot, rfl⟩

theorem key_inj : Function.Injective key := by
  rintro ⟨⟨r, d, t⟩, ht⟩ ⟨⟨r', d', t'⟩, ht'⟩ h
  obtain ⟨hr, hd, hc⟩ := Slot.key_eq_key_iff.1 (congrArg SlotKey.mk h)
  obtain rfl : r = r' := hr
  obtain rfl : d = d' := hd
  obtain rfl : t = t' := TimeOfDay.eq_of_clock ht ht' hc
  rfl

end WholeSlot

/-- What a bucket of a process is for. -/
inductive BucketUse
  | shared (s : WholeSlot)
  | ofClient (s : WholeSlot) (client : Ulid)

/-- The name that a store gives to the bucket; who the store's client is matters to the buckets of
clients only. -/
def BucketUse.name : BucketUse → String
  | shared s => (Local.Store.fresh default).bucketName s.key .whole
  | ofClient s client => (Local.Store.fresh client).bucketName s.key .perClient

/-- What a latch of a process is for. -/
inductive LatchUse
  | fair (s : WholeSlot)
  | named (s : WholeSlot)

def LatchUse.name : LatchUse → String
  | fair s => s.key
  | named s => Local.Store.lockName s.key

/-- What a name at the server is for. Flags have any names. -/
inductive ServerUse
  | lock (s : WholeSlot)
  | queue (s : WholeSlot)
  | heartbeats (s : WholeSlot)
  | pool (s : WholeSlot)
  | bucket (s : WholeSlot)
  | clientBucket (s : WholeSlot) (client : Ulid)
  | flag (name : String)

def ServerUse.name : ServerUse → Remote.Name
  | lock s => .lock s.key
  | queue s => .queue s.key
  | heartbeats s => .heartbeats s.key
  | pool s => .pool s.key
  | bucket s => Remote.Rate.bucket s.key default .whole
  | clientBucket s client => Remote.Rate.bucket s.key client .perClient
  | flag name => .flag name

def ServerUse.text (u : ServerUse) : String := u.name.text

theorem BucketUse.name_inj : Function.Injective name := by
  intro u v h
  cases u with
  | shared s =>
    cases v with
    | shared s' => exact congrArg shared (WholeSlot.key_inj h)
    | ofClient s' client => exact absurd h (s'.isSlotKey.ne_scopedTo s.isSlotKey client)
  | ofClient s client =>
    cases v with
    | shared s' => exact absurd h.symm (s.isSlotKey.ne_scopedTo s'.isSlotKey client)
    | ofClient s' client' =>
      have hscoped : s.slot.key.scopedTo client = s'.slot.key.scopedTo client' := h
      obtain ⟨hkey, rfl⟩ := SlotKey.scopedTo_inj hscoped
      rw [WholeSlot.key_inj (congrArg SlotKey.text hkey)]

theorem LatchUse.name_inj : Function.Injective name := by
  intro u v h
  cases u with
  | fair s =>
    cases v with
    | fair s' => exact congrArg fair (WholeSlot.key_inj h)
    | named s' => exact absurd h (s'.isSlotKey.ne_lockName s.isSlotKey)
  | named s =>
    cases v with
    | fair s' => exact absurd h.symm (s.isSlotKey.ne_lockName s'.isSlotKey)
    | named s' => exact congrArg named (WholeSlot.key_inj (Local.Store.lockName_inj h))

theorem ServerUse.name_inj : Function.Injective name := by
  intro u v h
  cases u <;> cases v <;> simp [name, Remote.Rate.bucket, WholeSlot.key_inj.eq_iff] at h ⊢
  all_goals exact h

/-- In each key space a name tells what it is for. -/
theorem names_injective :
    Function.Injective BucketUse.name ∧ Function.Injective LatchUse.name ∧
      Function.Injective ServerUse.text :=
  ⟨BucketUse.name_inj, LatchUse.name_inj, Remote.Name.text_inj.comp ServerUse.name_inj⟩

end Turnstile
