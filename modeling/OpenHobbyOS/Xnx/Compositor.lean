/-
# The compositor

The tables of `user/xnx/compositor.c`, kept dense by moving the last element into a hole, the
handlers of the messages, and the steps of the main loop.  A handler is a computation that reads
bytes at offsets from the start of the client's `read_buf`, taken modulo `2 ^ 32`.
-/
import OpenHobbyOS.Lib.Reading
import OpenHobbyOS.Lib.SwapRemove
import OpenHobbyOS.Xnx.Framing

namespace OpenHobbyOS.Xnx

open Lib Nat List

/-! ## Message types -/

/-- The types of messages that a client sends. -/
inductive Request where
  | createSurface
  | destroySurface
  | setTitle
  | setGeometry
  | writeBuffer
  | commit
  | getDisplayInfo
  deriving DecidableEq

/-- The request of a message type. -/
def Request.ofType (type : U32) : Option Request :=
  if type = 0x0001 then some .createSurface
  else if type = 0x0002 then some .destroySurface
  else if type = 0x0003 then some .setTitle
  else if type = 0x0004 then some .setGeometry
  else if type = 0x0005 then some .writeBuffer
  else if type = 0x0006 then some .commit
  else if type = 0x0007 then some .getDisplayInfo
  else none

/-! ## The tables -/

/-- `MAX_SURFACES_PER_CLIENT`. -/
def maxSurfacesPerClient : ℕ := 16
/-- `MAX_CLIENTS`. -/
def maxClients : ℕ := 32
/-- `MAX_SURFACES`. -/
def maxSurfaces : ℕ := 256

/-- A pixman image of 32-bit pixels; `stride` is the bytes of a row. -/
structure Image where
  width : U32
  height : U32
  stride : U32
  data : ℕ → U32

/-- The pixels of memory that a row takes. -/
def Image.row (image : Image) : ℕ := image.stride.toNat / 4

/-- The pixel at a place. -/
def Image.pixel (image : Image) (x y : ℕ) : U32 := image.data (y * image.row + x)

/-- The rows hold the pixels, and the image lies in the memory of a process. -/
structure Image.Fits (image : Image) : Prop where
  width_le : image.width.toNat ≤ image.row
  lt : 4 * (image.row * image.height.toNat) < 2 ^ 32

/-- The operators that `pixman_image_composite32` is called with. -/
inductive Operator where
  | opSrc
  | opOver

/-- What `pixman_image_composite32` is given. -/
structure Blit where
  sx : U32
  sy : U32
  dx : U32
  dy : U32
  width : U32
  height : U32

/-- The part that is copied lies in both images. -/
structure Blit.Inside (b : Blit) (src dst : Image) : Prop where
  src_row : src.width.toNat ≤ src.row
  dst_row : dst.width.toNat ≤ dst.row
  sx : b.sx.toNat + b.width.toNat ≤ src.width.toNat
  sy : b.sy.toNat + b.height.toNat ≤ src.height.toNat
  dx : b.dx.toNat + b.width.toNat ≤ dst.width.toNat
  dy : b.dy.toNat + b.height.toNat ≤ dst.height.toNat

/-- The pixel is painted. -/
def Blit.Covers (b : Blit) (x y : ℕ) : Prop :=
  b.dx.toNat ≤ x ∧ x < b.dx.toNat + b.width.toNat ∧
    b.dy.toNat ≤ y ∧ y < b.dy.toNat + b.height.toNat

instance decidableCovers (b : Blit) (x y : ℕ) : Decidable (b.Covers x y) :=
  inferInstanceAs (Decidable (_ ∧ _))

/-- The pixel hides what is below it. -/
def Solid (p : U32) : Prop := p.toNat / 2 ^ 24 = 255

instance decidableSolid : DecidablePred Solid := fun _ => inferInstanceAs (Decidable (_ = _))

/-- Pixman, which is not part of the repository: the functions that the compositor calls, and what
is known of them. -/
structure Pixman where
  /-- `pixman_image_create_bits` for `PIXMAN_a8r8g8b8`, without memory for the bits. -/
  createBits (width height : U32) : Option Image
  /-- `pixman_image_composite32` without a mask. -/
  composite (op : Operator) (src dst : Image) (b : Blit) : Image
  /-- `PIXMAN_OP_OVER` for a pixel and the one below it. -/
  overPixel (p below : U32) : U32
  createBits_size {width height : U32} {image : Image} :
    createBits width height = some image → image.width = width ∧ image.height = height
  createBits_fits {width height : U32} {image : Image} :
    createBits width height = some image → image.Fits
  composite_size (op : Operator) (src dst : Image) (b : Blit) :
    (composite op src dst b).width = dst.width ∧ (composite op src dst b).height = dst.height ∧
      (composite op src dst b).stride = dst.stride
  composite_over {src dst : Image} {b : Blit} (h : b.Inside src dst) {x y : ℕ}
    (hx : x < dst.width.toNat) (hy : y < dst.height.toNat) :
    (composite .opOver src dst b).pixel x y =
      if b.Covers x y then
        overPixel (src.pixel (b.sx.toNat + (x - b.dx.toNat)) (b.sy.toNat + (y - b.dy.toNat)))
          (dst.pixel x y)
      else dst.pixel x y
  overPixel_solid {p : U32} (h : Solid p) (below : U32) : overPixel p below = p
  overPixel_zero (below : U32) : overPixel 0 below = below

lemma place_of_index {x y w : ℕ} (hx : x < w) : (y * w + x) % w = x ∧ (y * w + x) / w = y := by
  rw [add_comm, add_mul_mod_self_right, mod_eq_of_lt hx,
    add_mul_div_right _ _ (by omega), div_eq_of_lt hx, zero_add]
  exact ⟨rfl, rfl⟩

/-- An image for examples, its rows without gaps. -/
def plainImage (width height : U32) : Option Image :=
  if 4 * width.toNat < 2 ^ 32 ∧ 4 * (width.toNat * height.toNat) < 2 ^ 32 then
    some ⟨width, height, BitVec.ofNat 32 (4 * width.toNat), fun _ => 0⟩
  else none

/-- A painted pixel for examples. -/
def plainPixel (op : Operator) (src dst : Image) (b : Blit) (x y : ℕ) : U32 :=
  let p := src.pixel (b.sx.toNat + (x - b.dx.toNat)) (b.sy.toNat + (y - b.dy.toNat))
  if b.Covers x y then
    match op with
    | .opSrc => p
    | .opOver => if Solid p then p else dst.pixel x y
  else dst.pixel x y

/-- What is known of pixman is true of the examples. -/
def plainPixman : Pixman where
  createBits := plainImage
  composite op src dst b :=
    { dst with data := fun i => plainPixel op src dst b (i % dst.row) (i / dst.row) }
  overPixel p below := if Solid p then p else below
  createBits_size := by
    intro width height image h
    rw [plainImage] at h
    split_ifs at h
    rw [← Option.some.inj h]
    exact ⟨rfl, rfl⟩
  createBits_fits := by
    intro width height image h
    rw [plainImage] at h
    split_ifs at h with hfits
    have hrow : (BitVec.ofNat 32 (4 * width.toNat)).toNat / 4 = width.toNat := by
      rw [BitVec.toNat_ofNat, Nat.mod_eq_of_lt hfits.1, Nat.mul_div_cancel_left _ (by decide)]
    rw [← Option.some.inj h]
    exact ⟨hrow.ge, by rw [Image.row, hrow]; exact hfits.2⟩
  composite_size _ _ _ _ := ⟨rfl, rfl, rfl⟩
  composite_over := by
    intro src dst b h x y hx hy
    obtain ⟨hmod, hdiv⟩ := @place_of_index x y dst.row (hx.trans_le h.dst_row)
    show plainPixel .opOver src dst b ((y * dst.row + x) % dst.row) ((y * dst.row + x) / dst.row) = _
    rw [hmod, hdiv]
    rfl
  overPixel_solid h below := if_pos h
  overPixel_zero below := if_neg (by decide)

/-- `struct xnx_surface`. -/
structure Surface where
  id : U32
  clientFd : ℤ
  image : Option Image
  x : U32
  y : U32
  width : U32
  height : U32
  title : List U8
  zOrder : U32
  visible : Bool

/-- `struct xnx_client`. -/
structure Client where
  fd : ℤ
  id : U32
  surfaceIds : List U32
  reader : Reader
  active : Bool

/-- The variables of the compositor. -/
structure Compositor where
  surfaces : List Surface
  nextSurfaceId : U32
  nextZOrder : U32
  clients : List Client
  nextClientId : U32
  fbWidth : U32
  fbHeight : U32
  focusedSurfaceId : U32

/-- The index of the surface, where the source has a pointer. -/
def findSurface (s : Compositor) (id : U32) : Option ℕ := s.surfaces.findIdx? (·.id = id)

/-- The surface is drawn. -/
def Surface.Shown (surface : Surface) : Prop := surface.visible = true ∧ surface.image.isSome

instance decidableShown (surface : Surface) : Decidable surface.Shown :=
  inferInstanceAs (Decidable (_ ∧ _))

/-- The body of the loop of `top_visible_surface`. -/
def higher (top : Option Surface) (surface : Surface) : Option Surface :=
  if ¬surface.Shown then top else
  match top with
  | none => some surface
  | some other => if other.zOrder.slt surface.zOrder then some surface else top

/-- `top_visible_surface`. -/
def topVisibleSurface (s : Compositor) : Option Surface := s.surfaces.foldl higher none

/-- `ensure_focus`. -/
def ensureFocus (s : Compositor) : Compositor :=
  match s.surfaces.find? (·.id = s.focusedSurfaceId) with
  | some focused =>
    if focused.Shown then s
    else { s with focusedSurfaceId := (topVisibleSurface s).elim 0 (·.id) }
  | none => { s with focusedSurfaceId := (topVisibleSurface s).elim 0 (·.id) }

/-- `focus_surface`, for the surface at an index. -/
def focusSurface (s : Compositor) (i : ℕ) : Compositor :=
  match s.surfaces[i]? with
  | none => ensureFocus s
  | some surface =>
    { s with
      surfaces := s.surfaces.set i { surface with zOrder := s.nextZOrder }
      nextZOrder := s.nextZOrder + 1
      focusedSurfaceId := surface.id }

/-- `drop_surface`. -/
def dropSurface (s : Compositor) (surfaceId : U32) : Compositor :=
  let s := match findSurface s surfaceId with
    | none => s
    | some i => { s with surfaces := swapRemove s.surfaces i }
  ensureFocus (if s.focusedSurfaceId = surfaceId then { s with focusedSurfaceId := 0 } else s)

/-- `remove_client`. -/
def removeClient (s : Compositor) (idx : ℕ) : Compositor :=
  match s.clients[idx]? with
  | none => s
  | some client =>
    let s := client.surfaceIds.foldl dropSurface s
    { s with clients := swapRemove s.clients idx }

/-- `add_client`; `none` when the table is full. -/
def addClient (s : Compositor) (fd : ℤ) : Option Compositor :=
  if maxClients ≤ s.clients.length then none else
  let id := s.nextClientId + 1
  some { s with
    clients := s.clients ++ [⟨fd, id, [], ⟨fun _ => 0, fun _ => 0, 0, .header⟩, true⟩]
    nextClientId := id }

/-- `create_surface` for the client at an index; `none` is -1. -/
def createSurface (s : Compositor) (idx : ℕ) (width height : U32) (px : Pixman) :
    Option (Compositor × U32) := do
  let client ← s.clients[idx]?
  if maxSurfacesPerClient ≤ client.surfaceIds.length ∨ maxSurfaces ≤ s.surfaces.length then none
  else if width = 0 ∨ height = 0 ∨ 4096 < width ∨ 4096 < height then none
  else do
    let image ← px.createBits width height
    let id := s.nextSurfaceId + 1
    let surface : Surface :=
      ⟨id, client.fd, some image, 0, 0, width, height, replicate 64 0, 0, true⟩
    let s := focusSurface
      { s with nextSurfaceId := id, surfaces := s.surfaces ++ [surface] } s.surfaces.length
    let client := { client with surfaceIds := client.surfaceIds ++ [id] }
    return ({ s with clients := s.clients.set idx client }, id)

/-! ## The handlers -/

/-- A computation that reads the payload. -/
abbrev Payload := Reading ℕ U8

/-- A number of the payload. -/
def payloadU32 (i : ℕ) : Payload U32 := do
  let bytes ← Reading.getAll [i, i + 1, i + 2, i + 3]
  return BitVec.ofNat 32 (le32 (bytes.getD · 0) 0)

/-- `strncpy` of the string at an offset. -/
def strncpy : ℕ → ℕ → Payload (List U8)
  | _, 0 => pure []
  | i, n + 1 => do
    let byte ← Reading.get i
    if byte = 0 then return replicate (n + 1) 0
    else do
      let rest ← strncpy (i + 1) n
      return byte :: rest

/-- The pixels that `memcpy` takes from an offset. -/
def readPixels (offset n : ℕ) : Payload (List U32) := do
  let bytes ← Reading.getAll ((range (4 * n)).map fun k => (offset + k) % 2 ^ 32)
  return (range n).map fun k => BitVec.ofNat 32 (le32 (bytes.getD · 0) (4 * k))

/-- What pixman does, and whether a reply can be sent. -/
structure Outside where
  pixman : Pixman
  sends : Bool

/-- All goes well, in the examples. -/
def plainOutside : Outside := ⟨plainPixman, true⟩

/-- The compositor, whether 0 is returned, and what is sent to whom. -/
structure Handled where
  comp : Compositor
  ok : Bool
  sent : List (ℤ × Message)

/-- The surface of this number, if it is the client's. -/
def ownSurface (s : Compositor) (fd : ℤ) (surfaceId : U32) : Option (ℕ × Surface) := do
  let i ← findSurface s surfaceId
  let surface ← s.surfaces[i]?
  if surface.clientFd ≠ fd then none else some (i, surface)

/-- `copy_width` and `copy_height` of `handle_set_geometry`. -/
def copySize (old new : U32) : U32 := if old < new then old else new

/-- A new place and size; the size stays when there is no memory for the image. -/
def Surface.setGeometry (surface : Surface) (x y width height : U32) (px : Pixman) : Surface :=
  let surface := { surface with x := x, y := y }
  if 0 < width ∧ 0 < height ∧ (width ≠ surface.width ∨ height ≠ surface.height) then
    match px.createBits width height with
    | none => surface
    | some image =>
      let copied := surface.image.elim image fun old =>
        px.composite .opSrc old image
          ⟨0, 0, 0, 0, copySize surface.width width, copySize surface.height height⟩
      { surface with image := some copied, width := width, height := height }
  else surface

/-- `handle_set_geometry`. -/
def handleSetGeometry (s : Compositor) (fd : ℤ) (px : Pixman) : Payload Compositor := do
  let surfaceId ← payloadU32 0
  match ownSurface s fd surfaceId with
  | none => return s
  | some (i, surface) =>
    let x ← payloadU32 4
    let y ← payloadU32 8
    let width ← payloadU32 12
    let height ← payloadU32 16
    return { s with surfaces := s.surfaces.set i (surface.setGeometry x y width height px) }

/-- `handle_set_title`. -/
def handleSetTitle (s : Compositor) (fd : ℤ) : Payload Compositor := do
  let surfaceId ← payloadU32 0
  match ownSurface s fd surfaceId with
  | none => return s
  | some (i, surface) =>
    let title ← strncpy 4 63
    return { s with surfaces := s.surfaces.set i { surface with title := title ++ [0] } }

/-- One row of `handle_write_buffer`. -/
def copyRow (image : Image) (x y bufferWidth width : ℕ) (data : ℕ → U32) (row : ℕ) :
    Payload (ℕ → U32) := do
  let dstOff := ((y + row) * image.row + x) % 2 ^ 32
  let pixels ← readPixels (20 + row * bufferWidth * 4 % 2 ^ 32) width
  return splice data dstOff pixels

/-- `handle_write_buffer`. -/
def handleWriteBuffer (s : Compositor) (fd : ℤ) : Payload Compositor := do
  let surfaceId ← payloadU32 0
  match ownSurface s fd surfaceId with
  | none => return s
  | some (i, surface) =>
    match surface.image with
    | none => return s
    | some image =>
      let bufferWidth ← payloadU32 12
      let bufferHeight ← payloadU32 16
      if bufferWidth = 0 ∨ bufferHeight = 0 then return s else
      let x ← payloadU32 4
      let y ← payloadU32 8
      if surface.width ≤ x ∨ surface.height ≤ y then return s else
      let width := min bufferWidth.toNat (surface.width - x).toNat
      let height := min bufferHeight.toNat (surface.height - y).toNat
      if image.row = 0 then return s else
      let data ← (range height).foldlM
        (copyRow image x.toNat y.toNat bufferWidth.toNat width) image.data
      return { s with surfaces :=
        s.surfaces.set i { surface with image := some { image with data := data } } }

/-- `handle_client_message` for the client at an index. -/
def handleClientMessage (s : Compositor) (idx : ℕ) (client : Client) (type : U32) (size : ℕ)
    (out : Outside) : Payload Handled :=
  match Request.ofType type with
  | none => pure ⟨s, false, []⟩
  | some .getDisplayInfo =>
    pure ⟨s, out.sends, [(client.fd, displayInfo s.fbWidth s.fbHeight)]⟩
  | some .createSurface =>
    if size < 8 then pure ⟨s, false, []⟩ else do
    let width ← payloadU32 0
    let height ← payloadU32 4
    match createSurface s idx width height out.pixman with
    | none => return ⟨s, false, []⟩
    | some (s, id) =>
      return ⟨s, out.sends, [(client.fd, surfaceCreated id)]⟩
  | some .destroySurface =>
    if size < 4 then pure ⟨s, false, []⟩ else do
    let surfaceId ← payloadU32 0
    match ownSurface s client.fd surfaceId with
    | none => return ⟨s, false, []⟩
    | some _ =>
      let s := dropSurface s surfaceId
      match client.surfaceIds.findIdx? (· = surfaceId) with
      | none => return ⟨s, true, []⟩
      | some i =>
        let client := { client with surfaceIds := swapRemove client.surfaceIds i }
        return ⟨{ s with clients := s.clients.set idx client }, true, []⟩
  | some .setTitle =>
    if size < 5 then pure ⟨s, false, []⟩ else do
    let s ← handleSetTitle s client.fd
    return ⟨s, true, []⟩
  | some .setGeometry =>
    if size < 20 then pure ⟨s, false, []⟩ else do
    let s ← handleSetGeometry s client.fd out.pixman
    return ⟨s, true, []⟩
  | some .writeBuffer =>
    if size < 20 then pure ⟨s, false, []⟩ else do
    let width ← payloadU32 12
    let height ← payloadU32 16
    -- the product is taken modulo `2 ^ 32`
    let pixelBytes := width.toNat * height.toNat * 4 % 2 ^ 32
    if size - 20 < pixelBytes then return ⟨s, false, []⟩ else do
    let s ← handleWriteBuffer s client.fd
    return ⟨s, true, []⟩
  | some .commit =>
    if size < 4 then pure ⟨s, false, []⟩ else do
    let surfaceId ← payloadU32 0
    match ownSurface s client.fd surfaceId with
    | none => return ⟨s, false, []⟩
    | some (i, _) => return ⟨focusSurface s i, out.sends, [(client.fd, frameDone)]⟩

/-- `send_key_to_focus`: the compositor and what it sends. -/
def sendKeyToFocus (s : Compositor) (keycode : U32) : Compositor × Option (ℤ × Message) :=
  let s := ensureFocus s
  match s.surfaces.find? (·.id = s.focusedSurfaceId) with
  | none => (s, none)
  | some surface =>
    (s, some (surface.clientFd, keyMessage ⟨surface.id, keycode⟩))

/-! ## The main loop -/

/-- What happens in the loop: a client is accepted, the socket of the client at an index is read,
a key is typed. -/
inductive Event where
  | accept (fd : ℤ)
  | read (idx : ℕ) (recv : Recv) (out : Outside)
  | key (code : U32)

/-- What `recv` may return when `n` bytes are asked for. -/
def Recv.Possible (recv : Recv) (n : ℕ) : Prop :=
  match recv with
  | .bytes data => data ≠ [] ∧ data.length ≤ n
  | _ => True

instance decidablePossible (recv : Recv) (n : ℕ) : Decidable (recv.Possible n) := by
  cases recv <;> unfold Recv.Possible <;> infer_instance

/-- `read_client_data`, and `remove_client` when it returns -1. -/
def readClient (s : Compositor) (idx : ℕ) (client : Client) (recv : Recv) (out : Outside) :
    Compositor :=
  let result := readClientData client.reader recv
  let client := { client with reader := result.1 }
  let s := { s with clients := s.clients.set idx client }
  match result.2 with
  | .error => removeClient s idx
  | .done => s
  | .handle =>
    let handled := (handleClientMessage s idx client result.1.type result.1.payloadSize out).run
      result.1.readBuf
    if handled.ok then handled.comp else removeClient handled.comp idx

/-- One event.  The kernel gives a new connection a descriptor that is not open. -/
def compositorStep (s : Compositor) : Event → Option Compositor
  | .accept fd =>
    if 0 ≤ fd ∧ fd ∉ s.clients.map (·.fd) then some ((addClient s fd).getD s) else none
  | .read idx recv out =>
    match s.clients[idx]? with
    | none => none
    | some client =>
      if client.active = true ∧ recv.Possible client.reader.needed then
        some (readClient s idx client recv out)
      else none
  | .key code => some (sendKeyToFocus s code).1

/-- The compositor before the first event. -/
def compositorStart (fbWidth fbHeight : U32) : Compositor :=
  ⟨[], 0, 1, [], 0, fbWidth, fbHeight, 0⟩

end OpenHobbyOS.Xnx
