import Mathlib.Data.List.Basic

/-!
# Pieces of POSIX and Linux

Numbers and library functions under their C names, with the values they have on Linux.
-/

namespace Posix

/-- Values of `errno`. -/
abbrev Errno := ℕ

def EINTR : Errno := 4
def EAGAIN : Errno := 11
def ENOSPC : Errno := 28
def ECONNABORTED : Errno := 103

/-! ### Readiness of epoll -/

/-- A set of event bits. -/
abbrev Events := BitVec 32

def EPOLLIN : Events := 0x001
def EPOLLPRI : Events := 0x002
def EPOLLOUT : Events := 0x004
def EPOLLERR : Events := 0x008
def EPOLLHUP : Events := 0x010
def EPOLLRDHUP : Events := 0x2000
def EPOLLET : Events := 0x80000000

/-- Some bit of `mask` is set. -/
def Events.Has (e mask : Events) : Prop := e &&& mask ≠ 0

instance (e mask : Events) : Decidable (e.Has mask) := inferInstanceAs (Decidable (_ ≠ _))

/-! ### Sockets -/

/-- The type of a socket, with flags. -/
abbrev SockType := BitVec 32

def SOCK_STREAM : SockType := 0x1
def SOCK_NONBLOCK : SockType := 0x800

/-- `socket` makes a socket of this type non-blocking. -/
def SockType.nonBlocking (type : SockType) : Bool := type &&& SOCK_NONBLOCK ≠ 0

/-! ### Addresses -/

/-- `struct in_addr`, as its four bytes. -/
structure InAddr where
  a : UInt8
  b : UInt8
  c : UInt8
  d : UInt8
  deriving DecidableEq

/-- `struct sockaddr_in`, without the family. -/
structure SockaddrIn where
  sin_addr : InAddr
  sin_port : UInt16
  deriving DecidableEq

/-- An address in dotted decimal. -/
def InAddr.text (x : InAddr) : List Char :=
  Nat.toDigits 10 x.a.toNat ++ '.' :: Nat.toDigits 10 x.b.toNat ++
    '.' :: Nat.toDigits 10 x.c.toNat ++ '.' :: Nat.toDigits 10 x.d.toNat

example : (⟨127, 0, 0, 1⟩ : InAddr).text = "127.0.0.1".toList := by decide

/-- `inet_ntop(AF_INET, x, dst, size)`: the text with its terminator, or `NULL` with `ENOSPC`
where it does not fit. -/
def inetNtop (x : InAddr) (size : ℕ) : Except Errno (List Char) :=
  if x.text.length + 1 ≤ size then .ok x.text else .error ENOSPC

/-- No address fits into one character. -/
lemma inetNtop_one (x : InAddr) : inetNtop x 1 = .error ENOSPC := by
  have hlen : 0 < x.text.length := by
    simp only [InAddr.text, List.length_append, List.length_cons]
    omega
  rw [inetNtop, if_neg (by omega)]

end Posix
