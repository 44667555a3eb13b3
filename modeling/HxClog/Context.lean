import HxClog.Message
import HxClog.Registry
import HxClog.Lib.Utf8

/-!
# The diagnostic context

Every thread has a context of key-value pairs, stored in arrays of a fixed size. A log
call takes a snapshot of it as text.
-/

namespace HxClog

open C

def contextMaxItems : Nat := 16

def contextKeyMax : Nat := 64

def contextValueMax : Nat := 128

/-- `char context[1024]` of `core_writev`. -/
def contextTextMax : Nat := 1024

structure ContextItem where
  key : CStr
  value : CStr

/-- `hx_context_state_t` -/
structure Context where
  items : List ContextItem
  count_le : items.length ≤ contextMaxItems

namespace Context

def empty : Context := ⟨[], Nat.zero_le _⟩

/-- `context_key_index`, of a key that is neither null nor empty. -/
def keyIndex (items : List ContextItem) (key : CStr) : Option Nat :=
  items.findIdx? fun i => strncmpEq (contextKeyMax - 1) i.key.bytes key.bytes

theorem keyIndex_lt {items : List ContextItem} {key : CStr} {i : Nat} (h : keyIndex items key = some i) : i < items.length :=
  List.findIdx?_eq_some_iff_getElem.mp h |>.1

/-- The pairs after a pair has been put. -/
def putItems (items : List ContextItem) (key value : CStr) : Option (List ContextItem) :=
  let stored := CStr.cut contextValueMax value
  match keyIndex items key with
  | some i => some (items.modify i fun item => { item with value := stored })
  | none =>
    if contextMaxItems ≤ items.length then none
    else some (items ++ [⟨CStr.cut contextKeyMax key, stored⟩])

theorem putItems_length {items items' : List ContextItem} {key value : CStr} (h : putItems items key value = some items')
    (hle : items.length ≤ contextMaxItems) : items'.length ≤ contextMaxItems := by
  unfold putItems at h
  simp only at h
  split at h
  · cases h
    rwa [List.length_modify]
  · split at h
    · cases h
    · rename_i hroom
      cases h
      rw [List.length_append, List.length_singleton]
      omega

/-- `hx_clog_context_put` -/
def hxClogContextPut (ctx : Context) (key value : Option CStr) : Context × Rc :=
  match key, value with
  | some k, some v =>
    if k.bytes = [] then (ctx, .invalidArgument)
    else
      match h : putItems ctx.items k v with
      | some items => (⟨items, putItems_length h ctx.count_le⟩, .ok)
      | none => (ctx, .invalidArgument)
  | _, _ => (ctx, .invalidArgument)

/-- `hx_clog_context_remove` -/
def hxClogContextRemove (ctx : Context) (key : Option CStr) : Context :=
  match key with
  | none => ctx
  | some k =>
    if k.bytes = [] then ctx
    else
      match keyIndex ctx.items k with
      | some i => ⟨ctx.items.eraseIdx i, (List.length_eraseIdx_le _ _).trans ctx.count_le⟩
      | none => ctx

/-- `hx_clog_context_clear` -/
def hxClogContextClear (_ : Context) : Context := empty

/-! ## The snapshot -/

/-- The loop of `hx_context_snapshot_text`: what is written behind `out`. -/
def snapshotLoop (cap : Nat) (out : Bytes) : List ContextItem → Bytes
  | [] => out
  | i :: items =>
    let need := i.key.bytes.length + i.value.bytes.length + 2
    if 0 < out.length ∧ cap ≤ out.length + 1 then out
    else
      let out := if 0 < out.length then out ++ [chr ' '] else out
      -- the pair does not fit: a blank in front of it stays
      if cap ≤ out.length + need then out
      else snapshotLoop cap (out ++ i.key.bytes ++ chr '=' :: i.value.bytes) items

/-- `hx_context_snapshot_text` -/
def hxContextSnapshotText (ctx : Context) (cap : Nat) : Bytes := snapshotLoop cap [] ctx.items

end Context

/-- What a call on the context or a log call is given. -/
inductive ContextCall where
  | put (key value : Option CStr)
  | remove (key : Option CStr)
  | clear

def ContextCall.run (ctx : Context) : ContextCall → Context
  | .put key value => (ctx.hxClogContextPut key value).1
  | .remove key => ctx.hxClogContextRemove key
  | .clear => ctx.hxClogContextClear

end HxClog
