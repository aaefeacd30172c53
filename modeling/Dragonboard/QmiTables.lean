/-
The message tables of `qcom/rmtfs/qmi_rmtfs.c` and `qcom/pd-mapper/servreg_loc.c`, with the
structs of `qmi_rmtfs.h` and `servreg_loc.h` that they describe.

A struct is the list of its members' types, and `offsetof` and `sizeof` follow from it by the
layout rules of the ABI (LP64): every member at the next multiple of its alignment, the whole
padded to the largest one. A member is named by its index. The tables are written as in the
source, without the terminator.

A `QMI_DATA_LEN` element says nothing about the width of its field: its `elem_size` is the
byte on the wire. That width is the size of the struct's member.

All of the tables are small, so the decoder never counts far: no counter of it wraps on any
message for them (`Message.decode_within`).
-/
import Dragonboard.QmiExtent

set_option autoImplicit false

namespace Dragonboard.Qmi

/-! ## C structs

The tables of the repository name their members by `offsetof` and `sizeof`, so the layout of the C
structs is needed to have them as numbers. It is computed here by the rule of the ABI: a member
starts at the next multiple of its alignment, and a struct ends at one of the largest of them. -/

/-- Size and alignment of a C type. -/
structure CType where
  size : ℕ
  align : ℕ

namespace CType

/-- `uint8_t` and `char`. -/
def uint8_t : CType := ⟨1, 1⟩

/-- `bool`. -/
def bool : CType := ⟨1, 1⟩

/-- `uint16_t`. -/
def uint16_t : CType := ⟨2, 2⟩

/-- `uint32_t`. -/
def uint32_t : CType := ⟨4, 4⟩

/-- `uint64_t`. -/
def uint64_t : CType := ⟨8, 8⟩

/-- `size_t`. -/
def size_t : CType := ⟨8, 8⟩

/-- An array of `n` elements. -/
def array (n : ℕ) (t : CType) : CType := ⟨n * t.size, t.align⟩

end CType

/-- The next multiple of an alignment. -/
def alignUp (pos align : ℕ) : ℕ := (pos + align - 1) / align * align

/-- The offsets of the members from a position on, and where the last one ends. -/
def offsets : List CType → ℕ → List ℕ × ℕ
  | [], pos => ([], pos)
  | t :: ts, pos =>
    let start := alignUp pos t.align
    let r := offsets ts (start + t.size)
    (start :: r.1, r.2)

/-- `offsetof` of the member with an index. -/
def offsetof (s : List CType) (i : ℕ) : ℕ := (offsets s 0).1.getD i 0

/-- The alignment of a struct: the largest one of its members. -/
def alignof (s : List CType) : ℕ := s.foldr (fun t n => max t.align n) 1

/-- `sizeof`. -/
def sizeof (s : List CType) : ℕ := alignUp (offsets s 0).2 (alignof s)

/-- A struct as the type of a member. -/
def struct (s : List CType) : CType := ⟨sizeof s, alignof s⟩

/-- The size of the member at an offset. -/
def memberSize (s : List CType) (offset : ℕ) : ℕ :=
  (((offsets s 0).1.zip s).find? fun m => m.1 = offset).elim 0 fun m => m.2.size

/-! ## `qmi_rmtfs.h` and `qmi_rmtfs.c`

Every struct is the list of the types of its members, in order, and every table is written against
it, entry by entry as in the source. `offsetof rmtfs_open_req 1` is the second member of `struct
rmtfs_open_req`. -/

open CType

/-- `struct rmtfs_qmi_result`: `result`, `error`. -/
def rmtfs_qmi_result : List CType := [uint16_t, uint16_t]

/-- `rmtfs_qmi_result_ei`. -/
def rmtfs_qmi_result_ei : List ElemInfo :=
  [⟨.unsigned2Byte, 1, 2, .noArray, 0, offsetof rmtfs_qmi_result 0, []⟩,
   ⟨.unsigned2Byte, 1, 2, .noArray, 0, offsetof rmtfs_qmi_result 1, []⟩]

/-- `struct rmtfs_iovec_entry`: `sector_addr`, `phys_offset`, `num_sector`. -/
def rmtfs_iovec_entry : List CType := [uint32_t, uint32_t, uint32_t]

/-- `rmtfs_iovec_entry_ei`. -/
def rmtfs_iovec_entry_ei : List ElemInfo :=
  [⟨.unsigned4Byte, 1, 4, .noArray, 0, offsetof rmtfs_iovec_entry 0, []⟩,
   ⟨.unsigned4Byte, 1, 4, .noArray, 0, offsetof rmtfs_iovec_entry 1, []⟩,
   ⟨.unsigned4Byte, 1, 4, .noArray, 0, offsetof rmtfs_iovec_entry 2, []⟩]

/-- `struct rmtfs_open_req`: `path_len`, `path`. -/
def rmtfs_open_req : List CType := [uint32_t, array 256 uint8_t]

/-- `rmtfs_open_req_ei`. -/
def rmtfs_open_req_ei : List ElemInfo :=
  [⟨.string, 256, 1, .varLenArray, 1, offsetof rmtfs_open_req 1, []⟩]

/-- `struct rmtfs_open_resp`: `result`, `caller_id_valid`, `caller_id`. -/
def rmtfs_open_resp : List CType := [struct rmtfs_qmi_result, bool, uint32_t]

/-- `rmtfs_open_resp_ei`. -/
def rmtfs_open_resp_ei : List ElemInfo :=
  [⟨.struct, 1, sizeof rmtfs_qmi_result, .noArray, 2, offsetof rmtfs_open_resp 0,
    rmtfs_qmi_result_ei⟩,
   ⟨.optFlag, 1, 1, .noArray, 16, offsetof rmtfs_open_resp 1, []⟩,
   ⟨.unsigned4Byte, 1, 4, .noArray, 16, offsetof rmtfs_open_resp 2, []⟩]

/-- `struct rmtfs_close_req`: `caller_id`. -/
def rmtfs_close_req : List CType := [uint32_t]

/-- `rmtfs_close_req_ei`. -/
def rmtfs_close_req_ei : List ElemInfo :=
  [⟨.unsigned4Byte, 1, 4, .noArray, 1, offsetof rmtfs_close_req 0, []⟩]

/-- `struct rmtfs_close_resp`: `result`. -/
def rmtfs_close_resp : List CType := [struct rmtfs_qmi_result]

/-- `rmtfs_close_resp_ei`. -/
def rmtfs_close_resp_ei : List ElemInfo :=
  [⟨.struct, 1, sizeof rmtfs_qmi_result, .noArray, 2, offsetof rmtfs_close_resp 0,
    rmtfs_qmi_result_ei⟩]

/-- `struct rmtfs_iovec_req`: `caller_id`, `direction`, `iovec_len`, `iovec`, `is_force_sync`. -/
def rmtfs_iovec_req : List CType :=
  [uint32_t, uint8_t, size_t, array 255 (struct rmtfs_iovec_entry), uint8_t]

/-- `rmtfs_iovec_req_ei`. -/
def rmtfs_iovec_req_ei : List ElemInfo :=
  [⟨.unsigned4Byte, 1, 4, .noArray, 1, offsetof rmtfs_iovec_req 0, []⟩,
   ⟨.unsigned1Byte, 1, 1, .noArray, 2, offsetof rmtfs_iovec_req 1, []⟩,
   ⟨.dataLen, 1, 1, .noArray, 3, offsetof rmtfs_iovec_req 2, []⟩,
   ⟨.struct, 255, sizeof rmtfs_iovec_entry, .varLenArray, 3, offsetof rmtfs_iovec_req 3,
    rmtfs_iovec_entry_ei⟩,
   ⟨.unsigned1Byte, 1, 1, .noArray, 4, offsetof rmtfs_iovec_req 4, []⟩]

/-- `struct rmtfs_iovec_resp`: `result`. -/
def rmtfs_iovec_resp : List CType := [struct rmtfs_qmi_result]

/-- `rmtfs_iovec_resp_ei`. -/
def rmtfs_iovec_resp_ei : List ElemInfo :=
  [⟨.struct, 1, sizeof rmtfs_qmi_result, .noArray, 2, offsetof rmtfs_iovec_resp 0,
    rmtfs_qmi_result_ei⟩]

/-- `struct rmtfs_alloc_buf_req`: `caller_id`, `buff_size`. -/
def rmtfs_alloc_buf_req : List CType := [uint32_t, uint32_t]

/-- `rmtfs_alloc_buf_req_ei`. -/
def rmtfs_alloc_buf_req_ei : List ElemInfo :=
  [⟨.unsigned4Byte, 1, 4, .noArray, 1, offsetof rmtfs_alloc_buf_req 0, []⟩,
   ⟨.unsigned4Byte, 1, 4, .noArray, 2, offsetof rmtfs_alloc_buf_req 1, []⟩]

/-- `struct rmtfs_alloc_buf_resp`: `result`, `buff_address_valid`, `buff_address`. -/
def rmtfs_alloc_buf_resp : List CType := [struct rmtfs_qmi_result, bool, uint64_t]

/-- `rmtfs_alloc_buf_resp_ei`. -/
def rmtfs_alloc_buf_resp_ei : List ElemInfo :=
  [⟨.struct, 1, sizeof rmtfs_qmi_result, .noArray, 2, offsetof rmtfs_alloc_buf_resp 0,
    rmtfs_qmi_result_ei⟩,
   ⟨.optFlag, 1, 1, .noArray, 16, offsetof rmtfs_alloc_buf_resp 1, []⟩,
   ⟨.unsigned8Byte, 1, 8, .noArray, 16, offsetof rmtfs_alloc_buf_resp 2, []⟩]

/-- `struct rmtfs_dev_error_req`: `caller_id`. -/
def rmtfs_dev_error_req : List CType := [uint32_t]

/-- `rmtfs_dev_error_req_ei`. -/
def rmtfs_dev_error_req_ei : List ElemInfo :=
  [⟨.unsigned4Byte, 1, 4, .noArray, 1, offsetof rmtfs_dev_error_req 0, []⟩]

/-- `struct rmtfs_dev_error_resp`: `result`, `status_valid`, `status`. -/
def rmtfs_dev_error_resp : List CType := [struct rmtfs_qmi_result, bool, uint8_t]

/-- `rmtfs_dev_error_resp_ei`. -/
def rmtfs_dev_error_resp_ei : List ElemInfo :=
  [⟨.struct, 1, sizeof rmtfs_qmi_result, .noArray, 2, offsetof rmtfs_dev_error_resp 0,
    rmtfs_qmi_result_ei⟩,
   ⟨.optFlag, 1, 1, .noArray, 16, offsetof rmtfs_dev_error_resp 1, []⟩,
   ⟨.unsigned1Byte, 1, 1, .noArray, 16, offsetof rmtfs_dev_error_resp 2, []⟩]

/-- `struct rmtfs_force_sync`: `caller_id_len`, `caller_id`. -/
def rmtfs_force_sync : List CType := [size_t, array 10 uint32_t]

/-- `rmtfs_force_sync_ei`. Its array is of `uint32_t`, declared as `QMI_UNSIGNED_1_BYTE`. -/
def rmtfs_force_sync_ei : List ElemInfo :=
  [⟨.dataLen, 1, 1, .noArray, 1, offsetof rmtfs_force_sync 0, []⟩,
   ⟨.unsigned1Byte, 10, 4, .varLenArray, 1, offsetof rmtfs_force_sync 1, []⟩]

/-! ## `servreg_loc.h` and `servreg_loc.c`

The same for the service registry. Its domain list is the one message of the repository with an
array of structs that hold a string. -/

/-- `struct servreg_loc_qmi_result`: `result`, `error`. -/
def servreg_loc_qmi_result : List CType := [uint16_t, uint16_t]

/-- `servreg_loc_qmi_result_ei`. -/
def servreg_loc_qmi_result_ei : List ElemInfo :=
  [⟨.unsigned2Byte, 1, 2, .noArray, 0, offsetof servreg_loc_qmi_result 0, []⟩,
   ⟨.unsigned2Byte, 1, 2, .noArray, 0, offsetof servreg_loc_qmi_result 1, []⟩]

/-- `struct servreg_loc_domain_list_entry`: `name_len`, `name`, `instance_id`,
`service_data_valid`, `service_data`. -/
def servreg_loc_domain_list_entry : List CType :=
  [uint32_t, array 256 uint8_t, uint32_t, uint8_t, uint32_t]

/-- `servreg_loc_domain_list_entry_ei`. -/
def servreg_loc_domain_list_entry_ei : List ElemInfo :=
  [⟨.string, 256, 1, .noArray, 0, offsetof servreg_loc_domain_list_entry 1, []⟩,
   ⟨.unsigned4Byte, 1, 4, .noArray, 0, offsetof servreg_loc_domain_list_entry 2, []⟩,
   ⟨.unsigned1Byte, 1, 1, .noArray, 0, offsetof servreg_loc_domain_list_entry 3, []⟩,
   ⟨.unsigned4Byte, 1, 4, .noArray, 0, offsetof servreg_loc_domain_list_entry 4, []⟩]

/-- `struct servreg_loc_get_domain_list_req`: `name_len`, `name`, `offset_valid`, `offset`. -/
def servreg_loc_get_domain_list_req : List CType := [uint32_t, array 256 uint8_t, bool, uint32_t]

/-- `servreg_loc_get_domain_list_req_ei`. -/
def servreg_loc_get_domain_list_req_ei : List ElemInfo :=
  [⟨.string, 256, 1, .varLenArray, 1, offsetof servreg_loc_get_domain_list_req 1, []⟩,
   ⟨.optFlag, 1, 1, .noArray, 16, offsetof servreg_loc_get_domain_list_req 2, []⟩,
   ⟨.unsigned4Byte, 1, 4, .noArray, 16, offsetof servreg_loc_get_domain_list_req 3, []⟩]

/-- `struct servreg_loc_get_domain_list_resp`: `result`, `total_domains_valid`, `total_domains`,
`db_revision_valid`, `db_revision`, `domain_list_valid`, `domain_list_len`, `domain_list`. -/
def servreg_loc_get_domain_list_resp : List CType :=
  [struct servreg_loc_qmi_result, bool, uint16_t, bool, uint16_t, bool, uint32_t,
   array 255 (struct servreg_loc_domain_list_entry)]

/-- `servreg_loc_get_domain_list_resp_ei`. -/
def servreg_loc_get_domain_list_resp_ei : List ElemInfo :=
  [⟨.struct, 1, sizeof servreg_loc_qmi_result, .noArray, 2,
    offsetof servreg_loc_get_domain_list_resp 0, servreg_loc_qmi_result_ei⟩,
   ⟨.optFlag, 1, 1, .noArray, 16, offsetof servreg_loc_get_domain_list_resp 1, []⟩,
   ⟨.unsigned2Byte, 1, 2, .noArray, 16, offsetof servreg_loc_get_domain_list_resp 2, []⟩,
   ⟨.optFlag, 1, 1, .noArray, 17, offsetof servreg_loc_get_domain_list_resp 3, []⟩,
   ⟨.unsigned2Byte, 1, 2, .noArray, 17, offsetof servreg_loc_get_domain_list_resp 4, []⟩,
   ⟨.optFlag, 1, 1, .noArray, 18, offsetof servreg_loc_get_domain_list_resp 5, []⟩,
   ⟨.dataLen, 1, 1, .noArray, 18, offsetof servreg_loc_get_domain_list_resp 6, []⟩,
   ⟨.struct, 255, sizeof servreg_loc_domain_list_entry, .varLenArray, 18,
    offsetof servreg_loc_get_domain_list_resp 7, servreg_loc_domain_list_entry_ei⟩]

/-- `struct servreg_loc_pfr_req`: `service_len`, `service`, `reason_len`, `reason`. -/
def servreg_loc_pfr_req : List CType :=
  [uint32_t, array 256 uint8_t, uint32_t, array 256 uint8_t]

/-- `servreg_loc_pfr_req_ei`. -/
def servreg_loc_pfr_req_ei : List ElemInfo :=
  [⟨.string, 256, 1, .varLenArray, 1, offsetof servreg_loc_pfr_req 1, []⟩,
   ⟨.string, 256, 1, .varLenArray, 2, offsetof servreg_loc_pfr_req 3, []⟩]

/-- `struct servreg_loc_pfr_resp`: `result`. -/
def servreg_loc_pfr_resp : List CType := [struct servreg_loc_qmi_result]

/-- `servreg_loc_pfr_resp_ei`. -/
def servreg_loc_pfr_resp_ei : List ElemInfo :=
  [⟨.struct, 1, sizeof servreg_loc_qmi_result, .noArray, 2, offsetof servreg_loc_pfr_resp 0,
    servreg_loc_qmi_result_ei⟩]

/-! ## The messages

The twenty messages are put under one type, so that what is proved of all tables of the repository
is proved once, by going through them. `width` is where they differ: a count is a `uint8_t` or a
`uint32_t` in the struct that is decoded into, and the decoder stores four bytes either way. -/

/-- The messages of the two services. -/
inductive Message where
  | rmtfs_open_req
  | rmtfs_open_resp
  | rmtfs_close_req
  | rmtfs_close_resp
  | rmtfs_iovec_req
  | rmtfs_iovec_resp
  | rmtfs_alloc_buf_req
  | rmtfs_alloc_buf_resp
  | rmtfs_dev_error_req
  | rmtfs_dev_error_resp
  | rmtfs_force_sync
  | servreg_loc_get_domain_list_req
  | servreg_loc_get_domain_list_resp
  | servreg_loc_pfr_req
  | servreg_loc_pfr_resp
deriving DecidableEq, Repr

namespace Message

/-- The descriptor table of a message. -/
def ei : Message → List ElemInfo
  | rmtfs_open_req => rmtfs_open_req_ei
  | rmtfs_open_resp => rmtfs_open_resp_ei
  | rmtfs_close_req => rmtfs_close_req_ei
  | rmtfs_close_resp => rmtfs_close_resp_ei
  | rmtfs_iovec_req => rmtfs_iovec_req_ei
  | rmtfs_iovec_resp => rmtfs_iovec_resp_ei
  | rmtfs_alloc_buf_req => rmtfs_alloc_buf_req_ei
  | rmtfs_alloc_buf_resp => rmtfs_alloc_buf_resp_ei
  | rmtfs_dev_error_req => rmtfs_dev_error_req_ei
  | rmtfs_dev_error_resp => rmtfs_dev_error_resp_ei
  | rmtfs_force_sync => rmtfs_force_sync_ei
  | servreg_loc_get_domain_list_req => servreg_loc_get_domain_list_req_ei
  | servreg_loc_get_domain_list_resp => servreg_loc_get_domain_list_resp_ei
  | servreg_loc_pfr_req => servreg_loc_pfr_req_ei
  | servreg_loc_pfr_resp => servreg_loc_pfr_resp_ei

/-- The C struct of a message. -/
def cstruct : Message → List CType
  | rmtfs_open_req => Qmi.rmtfs_open_req
  | rmtfs_open_resp => Qmi.rmtfs_open_resp
  | rmtfs_close_req => Qmi.rmtfs_close_req
  | rmtfs_close_resp => Qmi.rmtfs_close_resp
  | rmtfs_iovec_req => Qmi.rmtfs_iovec_req
  | rmtfs_iovec_resp => Qmi.rmtfs_iovec_resp
  | rmtfs_alloc_buf_req => Qmi.rmtfs_alloc_buf_req
  | rmtfs_alloc_buf_resp => Qmi.rmtfs_alloc_buf_resp
  | rmtfs_dev_error_req => Qmi.rmtfs_dev_error_req
  | rmtfs_dev_error_resp => Qmi.rmtfs_dev_error_resp
  | rmtfs_force_sync => Qmi.rmtfs_force_sync
  | servreg_loc_get_domain_list_req => Qmi.servreg_loc_get_domain_list_req
  | servreg_loc_get_domain_list_resp => Qmi.servreg_loc_get_domain_list_resp
  | servreg_loc_pfr_req => Qmi.servreg_loc_pfr_req
  | servreg_loc_pfr_resp => Qmi.servreg_loc_pfr_resp

/-- The width of a count in the struct of the message. -/
def width (m : Message) (l : ElemInfo) : ℕ := memberSize m.cstruct l.offset

theorem tlvExtent_ei (m : Message) : tlvExtent m.ei < 2 ^ 18 := by
  cases m <;> decide +kernel

/-- **No counter of the decoder wraps** on any message for one of these tables, as long as the message
itself is below a gigabyte. -/
theorem decode_within (m : Message) (buf : Memory.Mem) (out in_buf_len : ℕ)
    (hlen : in_buf_len < 2 ^ 30) :
    Memory.Traced.Within (2 ^ 31 - 1) (qmi_decode m.ei buf out 0 in_buf_len 1)
      fun n => n < 2 ^ 31 := by
  have hextent := m.tlvExtent_ei
  exact (qmi_decode_within m.ei buf out 0 in_buf_len).mono (by omega) fun n hn => by omega

end Message

end Dragonboard.Qmi
