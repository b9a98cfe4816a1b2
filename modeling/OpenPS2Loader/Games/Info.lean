import OpenPS2Loader.Lib.Text

/-!
# The games of a list

`supportbase.h`: what the menu knows of a game, whatever device it is on.

## Main definitions

* `GameFormat`, `GameInfo` — `enum GAME_FORMAT` and `base_game_info_t`
-/

namespace OpenPS2Loader

/-- `UL_GAME_NAME_MAX`. -/
def ulGameNameMax : ℕ := 32

/-- `ISO_GAME_NAME_MAX`. -/
def isoGameNameMax : ℕ := 160

/-- `ISO_GAME_EXTENSION_MAX`. -/
def isoGameExtensionMax : ℕ := 4

/-- `GAME_STARTUP_MAX`. -/
def gameStartupMax : ℕ := 12

/-- `enum GAME_FORMAT`. -/
inductive GameFormat
  | usbld
  | oldIso
  | iso
  | folder
  deriving DecidableEq

/-- `base_game_info_t`. The arrays hold one byte more than the limits, for the NUL. -/
structure GameInfo where
  name : Text
  startup : Text
  extension : Text
  parts : UInt8
  media : UInt8
  format : GameFormat
  sizeMB : ℕ
  deriving DecidableEq

/-- `SCECdPS2CD`. -/
def sceCdPS2CD : UInt8 := 0x12

/-- `SCECdPS2DVD`. -/
def sceCdPS2DVD : UInt8 := 0x14

end OpenPS2Loader
