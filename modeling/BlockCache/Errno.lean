/-!
The numbers a system reports its failures by.
-/

namespace BlockCache.Errno

def noEntry : Int := 2

def io : Int := 5

def badDescriptor : Int := 9

def noMemory : Int := 12

def accessDenied : Int := 13

def badAddress : Int := 14

def alreadyExists : Int := 17

def notDirectory : Int := 20

def isDirectory : Int := 21

def invalid : Int := 22

def tooManyOpen : Int := 24

def tooLarge : Int := 27

def nameTooLong : Int := 36

end BlockCache.Errno
