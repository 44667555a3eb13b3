import HxClog.Ini

/-!
# The block of the slot array

`hx_async_start` asks for `sizeof(async_slot_t) * cap` bytes, computed in `size_t`. With
64 bits the product never wraps, and `hx_clog__malloc` refuses what an allocator of the
application could not be asked for. With 32 bits nothing stops it from wrapping.
-/

namespace HxClog

namespace SlotArray

open C

inductive SizeWidth where
  | bits32
  | bits64
  deriving DecidableEq, Repr

def SizeWidth.sizeMax : SizeWidth → Nat
  | .bits32 => 2 ^ 32 - 1
  | .bits64 => 2 ^ 64 - 1

/-- A product of type `size_t`. -/
def sizeMul (w : SizeWidth) (a b : Nat) : Nat := a * b % (w.sizeMax + 1)

/-- The size of the block, if there is one. `user` says whether the application has installed an allocator, and `granted`
whether the allocator that is asked has such a block. -/
def hxClogMalloc (w : SizeWidth) (user granted : Bool) (size : Nat) : Option Nat :=
  if user then
    if uintMax < w.sizeMax ∧ uintMax < size then none
    else if granted then some (u32 size) else none
  else if granted then some size else none

/-- What `hx_async_start` leaves: the number of slots, the bytes of the block and the bytes of it that are cleared. -/
structure Started where
  capacity : Nat
  block : Nat
  cleared : Nat
  deriving DecidableEq, Repr

def queueCapacity (asyncQueueSize : UInt32) : Nat := if asyncQueueSize = 0 then 8192 else asyncQueueSize.toNat

/-- `none` stands for `HX_CLOG_ERR_OUT_OF_MEMORY`. -/
def hxAsyncStart (w : SizeWidth) (user granted : Bool) (slotSize : Nat) (asyncQueueSize : UInt32) : Option Started :=
  (hxClogMalloc w user granted (sizeMul w slotSize (queueCapacity asyncQueueSize))).map fun block =>
    ⟨queueCapacity asyncQueueSize, block, sizeMul w slotSize (queueCapacity asyncQueueSize)⟩

/-- The block has room for the slots, all of them are cleared, and each index is inside. -/
structure Started.Holds (st : Started) (slotSize : Nat) : Prop where
  block : slotSize * st.capacity ≤ st.block
  cleared : slotSize * st.capacity ≤ st.cleared
  index : ∀ i < st.capacity, slotSize * i + slotSize ≤ st.block

section
variable {w : SizeWidth} {user : Bool} {slotSize cap : Nat}

end

end SlotArray

end HxClog
