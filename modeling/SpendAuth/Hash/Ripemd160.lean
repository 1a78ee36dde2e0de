import SpendAuth.Hash.Block

set_option autoImplicit false

namespace SpendAuth.Ripemd160

open Block (rotateLeft)

structure State where
  a : UInt32
  b : UInt32
  c : UInt32
  d : UInt32
  e : UInt32
  deriving DecidableEq, Repr

def initial : State :=
  { a := 0x67452301, b := 0xefcdab89, c := 0x98badcfe, d := 0x10325476, e := 0xc3d2e1f0 }

/-- The five ways of mixing three words, one for each group of sixteen steps. -/
def mix : (group : Nat) → (x y z : UInt32) → UInt32
  | 0, x, y, z => x ^^^ y ^^^ z
  | 1, x, y, z => (x &&& y) ||| (~~~ x &&& z)
  | 2, x, y, z => (x ||| ~~~ y) ^^^ z
  | 3, x, y, z => (x &&& z) ||| (y &&& ~~~ z)
  | _, x, y, z => x ^^^ (y ||| ~~~ z)

/-- Sixteen steps that share a way of mixing and a constant. -/
structure Group where
  mixer : Nat
  constant : UInt32
  /-- The places of the block's words, in the order they are used. -/
  places : List Nat
  /-- The rotation of each step. -/
  rotations : List UInt32

def leftLine : List Group :=
  [{ mixer := 0, constant := 0x00000000
     places := [0, 1, 2, 3, 4, 5, 6, 7, 8, 9, 10, 11, 12, 13, 14, 15]
     rotations := [11, 14, 15, 12, 5, 8, 7, 9, 11, 13, 14, 15, 6, 7, 9, 8] },
   { mixer := 1, constant := 0x5a827999
     places := [7, 4, 13, 1, 10, 6, 15, 3, 12, 0, 9, 5, 2, 14, 11, 8]
     rotations := [7, 6, 8, 13, 11, 9, 7, 15, 7, 12, 15, 9, 11, 7, 13, 12] },
   { mixer := 2, constant := 0x6ed9eba1
     places := [3, 10, 14, 4, 9, 15, 8, 1, 2, 7, 0, 6, 13, 11, 5, 12]
     rotations := [11, 13, 6, 7, 14, 9, 13, 15, 14, 8, 13, 6, 5, 12, 7, 5] },
   { mixer := 3, constant := 0x8f1bbcdc
     places := [1, 9, 11, 10, 0, 8, 12, 4, 13, 3, 7, 15, 14, 5, 6, 2]
     rotations := [11, 12, 14, 15, 14, 15, 9, 8, 9, 14, 5, 6, 8, 6, 5, 12] },
   { mixer := 4, constant := 0xa953fd4e
     places := [4, 0, 5, 9, 7, 12, 2, 10, 14, 1, 3, 8, 11, 6, 15, 13]
     rotations := [9, 15, 5, 11, 6, 8, 13, 12, 5, 12, 13, 14, 11, 8, 5, 6] }]

def rightLine : List Group :=
  [{ mixer := 4, constant := 0x50a28be6
     places := [5, 14, 7, 0, 9, 2, 11, 4, 13, 6, 15, 8, 1, 10, 3, 12]
     rotations := [8, 9, 9, 11, 13, 15, 15, 5, 7, 7, 8, 11, 14, 14, 12, 6] },
   { mixer := 3, constant := 0x5c4dd124
     places := [6, 11, 3, 7, 0, 13, 5, 10, 14, 15, 8, 12, 4, 9, 1, 2]
     rotations := [9, 13, 15, 7, 12, 8, 9, 11, 7, 7, 12, 7, 6, 15, 13, 11] },
   { mixer := 2, constant := 0x6d703ef3
     places := [15, 5, 1, 3, 7, 14, 6, 9, 11, 8, 12, 2, 10, 0, 4, 13]
     rotations := [9, 7, 15, 11, 8, 6, 6, 14, 12, 13, 5, 14, 13, 13, 7, 5] },
   { mixer := 1, constant := 0x7a6d76e9
     places := [8, 6, 4, 1, 3, 11, 15, 0, 5, 12, 2, 13, 9, 7, 10, 14]
     rotations := [15, 5, 8, 11, 14, 14, 6, 14, 6, 9, 12, 9, 12, 5, 15, 8] },
   { mixer := 0, constant := 0x00000000
     places := [12, 15, 10, 4, 1, 5, 8, 7, 6, 2, 13, 14, 0, 3, 9, 11]
     rotations := [8, 5, 12, 9, 12, 5, 14, 6, 8, 13, 6, 5, 15, 13, 11, 11] }]

/-- One step, with the sum of its constant and its word. -/
def step (mixer : Nat) (s : State) (input rotation : UInt32) : State :=
  { a := s.e, b := rotateLeft (s.a + mix mixer s.b s.c s.d + input) rotation + s.e
    c := s.b, d := rotateLeft s.c 10, e := s.d }

def Group.run (group : Group) (words : List UInt32) (s : State) : State :=
  (group.places.zip group.rotations).foldl
    (fun s (place, rotation) =>
      step group.mixer s (words.getD place 0 + group.constant) rotation) s

def runLine (line : List Group) (words : List UInt32) (s : State) : State :=
  line.foldl (fun s group => group.run words s) s

def compress (s : State) (block : Bytes) : State :=
  let words := Block.words Bytes.ofLittleEndian block
  let l := runLine leftLine words s
  let r := runLine rightLine words s
  { a := s.b + l.c + r.d, b := s.c + l.d + r.e, c := s.d + l.e + r.a
    d := s.e + l.a + r.b, e := s.a + l.b + r.c }

/-- The state as bytes, each word least significant byte first. -/
def State.bytes (s : State) : Bytes :=
  [s.a, s.b, s.c, s.d, s.e].flatMap fun word => Bytes.littleEndian 4 word.toNat

def digest (message : Bytes) : Bytes :=
  ((Block.ofMessage (Bytes.littleEndian 8) message).foldl compress initial).bytes

@[simp] theorem length_bytes (s : State) : s.bytes.length = 20 := by
  simp only [State.bytes, List.flatMap_cons, List.flatMap_nil, List.length_append,
    Bytes.length_littleEndian, List.length_nil]

@[simp] theorem length_digest (message : Bytes) : (digest message).length = 20 :=
  length_bytes _

end SpendAuth.Ripemd160
