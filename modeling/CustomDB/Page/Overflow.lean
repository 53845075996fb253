import CustomDB.Page.Slotted
import CustomDB.Pager.Freelist

/-!
# Overflow pages

A record of 1024 bytes or more lies in its leaf only in part: the rest is on a chain of pages that the allocator hands
out. `serialize_cell_for_leaf` writes the chain, `cursor_value` reads it, `btree_delete` frees it.
-/

namespace CustomDB

namespace Page

open Lib Lib.Bytes Lib.Memory

/-- A page as its first word and the bytes behind it, by their address in the page. -/
structure Block where
  word : Nat
  rest : Mem

instance : PageBody Block := ⟨⟨0, fun _ => 0⟩, Block.word, fun n => ⟨n, fun _ => 0⟩, rfl, fun _ => rfl⟩

/-- The bytes of a page. -/
def Block.bytes (b : Block) : Mem := fun a => if a < 4 then (leBytes 4 b.word).getD a 0 else b.rest a

/-- The page with these bytes. -/
def Block.ofBytes (m : Mem) : Block := ⟨u32 m 0, m⟩

/-- `OVERFLOW_HEADER_SIZE`. -/
def overflowHeaderSize : Nat := 4

/-- `OVERFLOW_PAYLOAD_SIZE`. -/
def overflowPayloadSize : Nat := pageSize - overflowHeaderSize

/-- `memset(pbuf, 0, PAGE_SIZE)`, and the chunk behind the header. -/
def overflowPage (chunk : List UInt8) : CustomDB.Page Block :=
  ⟨⟨0, write (fun _ => 0) overflowHeaderSize chunk⟩, 0, 0⟩

/-- `memcpy(prev_buf, &new_page, 4)`. -/
def setNext (next : Nat) (page : CustomDB.Page Block) : CustomDB.Page Block := { page with body := ⟨next, page.body.rest⟩ }

/-! ## The four loops -/

/-- The loop of `btree_write_overflow_chain`: the first page and the last one. The chunk is stored with the `memset`,
nothing happens to the page between the two. -/
def writeOverflowPages (s : Pager Block) (firstPage prevPage : Nat) (data : List UInt8) : Nat × Nat × Pager Block :=
  if data = [] then (firstPage, prevPage, s)
  else
    let r := s.getUnusedPageNum
    let newPage := r.1
    let s := r.2.pagerJournalPage newPage
    let s := s.modify newPage fun _ => overflowPage (data.take overflowPayloadSize)
    let s := if prevPage = 0 then s else s.modify prevPage (setNext newPage)
    writeOverflowPages s (if firstPage = 0 then newPage else firstPage) newPage (data.drop overflowPayloadSize)
termination_by data.length
decreasing_by
  rw [List.length_drop]
  have := List.length_pos_of_ne_nil ‹_›
  unfold overflowPayloadSize pageSize overflowHeaderSize
  omega

/-- `btree_write_overflow_chain`. -/
def btreeWriteOverflowChain (s : Pager Block) (data : List UInt8) : Nat × Pager Block :=
  let r := writeOverflowPages s 0 0 data
  (r.1, if r.2.1 = 0 then r.2.2 else r.2.2.modify r.2.1 (setNext 0))

/-- `btree_free_overflow_chain`; `none` where the chain has more pages than `fuel`. -/
def btreeFreeOverflowChain : Nat → Pager Block → Nat → Option (Pager Block)
  | 0, _, _ => none
  | fuel + 1, s, cur =>
    if cur = 0 ∨ cur = invalidPageNum ∨ cur < s.reservedCatalogPages then some s
    else
      let s := (s.pagerJournalPage cur).getPage cur
      btreeFreeOverflowChain fuel (s.pagerFreePage cur) (s.deref cur).body.word

/-- `btree_read_overflow_chain`: the bytes stored to `dst`, from its start. -/
def btreeReadOverflowChain (s : Pager Block) (cur len : Nat) : List UInt8 × Pager Block :=
  if cur = 0 ∨ cur = invalidPageNum ∨ len = 0 then ([], s)
  else
    let s := s.getPage cur
    let body := (s.deref cur).body
    let chunkSize := min len overflowPayloadSize
    let r := btreeReadOverflowChain s body.word (len - chunkSize)
    (read body.rest overflowHeaderSize chunkSize ++ r.1, r.2)
termination_by len
decreasing_by
  unfold overflowPayloadSize pageSize overflowHeaderSize
  omega

/-! ## Cells -/

/-- `serialize_cell_for_leaf` behind the serializer: the cell of a record. -/
def serializeCellForLeaf (s : Pager Block) (record : List UInt8) : List UInt8 × Pager Block :=
  if record.length < maxLocalPayload then (record, s)
  else
    let localChunk := maxLocalPayload - overflowStubHeader
    let r := btreeWriteOverflowChain s (record.drop localChunk)
    (leBytes 4 record.length ++ leBytes 4 r.1 ++ record.take localChunk, r.2)

/-- `cursor_value`: the bytes of the cell, or of the overflow buffer. -/
def cursorValue (s : Pager Block) (pageNum cellNum : Nat) : List UInt8 × Pager Block :=
  let s := s.getPage pageNum
  let node := (s.deref pageNum).body.bytes
  let slot := leafNodeSlot node cellNum
  if ¬ CellIsOverflowStub slot.size then (cellOf node slot, s)
  else
    let totalSize := u32 node slot.offset
    let firstOverflowPage := u32 node (slot.offset + 4)
    let localChunk := slot.size - overflowStubHeader
    if totalSize ≤ localChunk ∨ firstOverflowPage = 0 ∨ firstOverflowPage = invalidPageNum ∨
        firstOverflowPage < s.reservedCatalogPages then (cellOf node slot, s)
    else
      let r := btreeReadOverflowChain s firstOverflowPage (totalSize - localChunk)
      (read node (slot.offset + overflowStubHeader) localChunk ++ r.1, r.2)

/-- The first part of `btree_delete`, up to where the slots move: the chain of the cell is freed. -/
def deleteOverflow (fuel : Nat) (s : Pager Block) (pageNum cellNum : Nat) : Option (Pager Block) :=
  let s := (s.pagerJournalPage pageNum).getPage pageNum
  let node := (s.deref pageNum).body.bytes
  let nc := leafNodeNumCells node
  if nc = 0 ∨ nc ≤ cellNum then some s
  else
    let slot := leafNodeSlot node cellNum
    let firstOverflowPage := u32 node (slot.offset + 4)
    if CellIsOverflowStub slot.size ∧ firstOverflowPage ≠ 0 then btreeFreeOverflowChain fuel s firstOverflowPage
    else some s

end Page

end CustomDB
