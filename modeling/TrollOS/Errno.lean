/-!
# Error numbers

`enum Errno` of `errno.h`, as far as the modelled code returns them.
-/

namespace TrollOS

def eperm : Int := 1

def enoent : Int := 2

def esrch : Int := 3

def eio : Int := 5

def ebadf : Int := 9

def eagain : Int := 11

def ewouldblock : Int := eagain

def enomem : Int := 12

def eacces : Int := 13

def enodev : Int := 19

def enotdir : Int := 20

def eisdir : Int := 21

def einval : Int := 22

def emfile : Int := 24

def emlink : Int := 31

def enosys : Int := 38

end TrollOS
