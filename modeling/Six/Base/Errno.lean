import Six.Lib.Index

/-! The error numbers of the kernel.  A function that fails returns the negation of one of them. -/

namespace Six.Errno

def eperm : Int := 1
def enoent : Int := 2
def eio : Int := 5
def ebadf : Int := 9
def eagain : Int := 11
def enomem : Int := 12
def eacces : Int := 13
def ebusy : Int := 16
def eexist : Int := 17
def enodev : Int := 19
def enotdir : Int := 20
def eisdir : Int := 21
def einval : Int := 22
def enospc : Int := 28
def erofs : Int := 30
def epipe : Int := 32
def edeadlk : Int := 35
def enametoolong : Int := 36
def enotempty : Int := 39
def eproto : Int := 71
def enotconn : Int := 107
def econnrefused : Int := 111
def erestartsys : Int := 512

end Six.Errno
