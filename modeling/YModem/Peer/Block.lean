import YModem.Peer.Base

/-!
# The layout of a block

A block is an SOH, its number, the complement of the number, a chunk of 128 bytes and
the checksum of the chunk. Both peers look at the bytes behind the SOH.
-/

namespace YModem.Peer

/-- The number of a block, from the bytes behind its SOH. -/
def blkNumOf (rest : List UInt8) : UInt8 := rest.getD 0 0

def complementOf (rest : List UInt8) : UInt8 := rest.getD 1 0

/-- The 128 data bytes of a block, from the bytes behind its SOH. -/
def payloadOf (rest : List UInt8) : List UInt8 := (rest.drop 2).take CHUNK_SZ

/-- The bytes behind an SOH form a block whose number matches its complement and whose
checksum is right. -/
structure Intact (rest : List UInt8) : Prop where
  length_eq : rest.length = REST_BLK_SZ_CRC
  matched : complementOf rest = ~~~blkNumOf rest
  crc : (rest.drop (2 + CHUNK_SZ)).take 2 = crc16ns (payloadOf rest)

instance (rest : List UInt8) : Decidable (Intact rest) :=
  decidable_of_iff (rest.length = REST_BLK_SZ_CRC ∧ complementOf rest = ~~~blkNumOf rest ∧
      (rest.drop (2 + CHUNK_SZ)).take 2 = crc16ns (payloadOf rest))
    ⟨fun ⟨h₁, h₂, h₃⟩ => ⟨h₁, h₂, h₃⟩, fun ⟨h₁, h₂, h₃⟩ => ⟨h₁, h₂, h₃⟩⟩

/-- The bytes behind the SOH of the block with a given number and chunk. -/
def restOf (num : UInt8) (payload : List UInt8) : List UInt8 :=
  num :: ~~~num :: (payload ++ crc16ns payload)

/-- A chunk that starts with `bs` and is filled up. -/
def padded (fill : UInt8) (bs : List UInt8) : List UInt8 :=
  bs ++ List.replicate (CHUNK_SZ - bs.length) fill

/-- The chunk of a stat block that names a file. -/
def statChunk (fileName text : List UInt8) : List UInt8 := padded 0 (fileName ++ 0 :: text)

theorem length_padded {fill : UInt8} {bs : List UInt8} (h : bs.length ≤ CHUNK_SZ) :
    (padded fill bs).length = CHUNK_SZ := by
  simp only [padded, List.length_append, List.length_replicate]
  omega

theorem length_statChunk {fileName text : List UInt8}
    (h : fileName.length + text.length + 1 ≤ CHUNK_SZ) :
    (statChunk fileName text).length = CHUNK_SZ :=
  length_padded (by simpa [Nat.add_assoc] using h)

theorem restOf_intact (num : UInt8) {payload : List UInt8} (h : payload.length = CHUNK_SZ) :
    Intact (restOf num payload) where
  length_eq := by simp [restOf, h]
  matched := rfl
  crc := by
    have hp : payloadOf (restOf num payload) = payload := by
      simp [payloadOf, restOf, ← h]
    have hcrc : ((restOf num payload).drop (2 + CHUNK_SZ)).take 2 = (crc16ns payload).take 2 := by
      simp [restOf, ← h, Nat.add_comm 2]
    rw [hp, hcrc]
    exact List.take_of_length_le (Nat.le_refl 2)

theorem length_restOf (num : UInt8) {payload : List UInt8} (h : payload.length = CHUNK_SZ) :
    (restOf num payload).length = REST_BLK_SZ_CRC := (restOf_intact num h).length_eq

@[simp] theorem blkNumOf_restOf (num : UInt8) (payload : List UInt8) :
    blkNumOf (restOf num payload) = num := rfl

theorem payloadOf_restOf (num : UInt8) {payload : List UInt8} (h : payload.length = CHUNK_SZ) :
    payloadOf (restOf num payload) = payload := by
  simp [payloadOf, restOf, ← h]

end YModem.Peer
