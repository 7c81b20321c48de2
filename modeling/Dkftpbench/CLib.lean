import Mathlib.Data.Int.Notation

/-!
# What the code uses of the C library

Error numbers are those of Linux; a function that returns 0 or a Unix error code
returns an integer.
-/
namespace Dkftpbench.CLib

def ENOENT : ℤ := 2
def EAGAIN : ℤ := 11
def EWOULDBLOCK : ℤ := EAGAIN
def E2BIG : ℤ := 7
def ENOMEM : ℤ := 12
def EACCES : ℤ := 13
def EINVAL : ℤ := 22
def ENOSPC : ℤ := 28
def EPIPE : ℤ := 32
def ENOSYS : ℤ := 38
def EMSGSIZE : ℤ := 90
def EISCONN : ℤ := 106
def EALREADY : ℤ := 114
def EINPROGRESS : ℤ := 115

/-- A `char` of the source. -/
abbrev Byte := UInt8

/-- CR and LF. -/
def CR : Byte := 13
def LF : Byte := 10

end Dkftpbench.CLib
