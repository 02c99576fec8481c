namespace Famicom

inductive FileFailure where
  | notPermitted
  | missing
  | faulty
  | noDevice
  | denied
  | busy
  | notDirectory
  | isDirectory
  | tooLarge
  | noSpace
  | readOnly
  | nameTooLong
  | linkLoop
  deriving DecidableEq, Repr

namespace FileFailure

def number : FileFailure → Nat
  | notPermitted => 1
  | missing => 2
  | faulty => 5
  | noDevice => 6
  | denied => 13
  | busy => 16
  | notDirectory => 20
  | isDirectory => 21
  | tooLarge => 27
  | noSpace => 28
  | readOnly => 30
  | nameTooLong => 36
  | linkLoop => 40

def reason : FileFailure → String
  | notPermitted => "Operation not permitted"
  | missing => "No such file or directory"
  | faulty => "Input/output error"
  | noDevice => "No such device or address"
  | denied => "Permission denied"
  | busy => "Device or resource busy"
  | notDirectory => "Not a directory"
  | isDirectory => "Is a directory"
  | tooLarge => "File too large"
  | noSpace => "No space left on device"
  | readOnly => "Read-only file system"
  | nameTooLong => "File name too long"
  | linkLoop => "Too many levels of symbolic links"

def text (f : FileFailure) : String := s!"{f.reason} (os error {f.number})"

def all : List FileFailure :=
  [notPermitted,missing,faulty,noDevice,denied,busy,notDirectory,isDirectory,tooLarge,noSpace,readOnly,
    nameTooLong,linkLoop]

def ofNumber? (n : Nat) : Option FileFailure := all.find? (·.number == n)

theorem ofNumber_number (f : FileFailure) : ofNumber? f.number = some f := by
  cases f <;> rfl

end FileFailure
end Famicom
