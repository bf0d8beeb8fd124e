import LimitOrderBook.MatchingEngine
import LimitOrderBook.CheckInvariants
import LimitOrderBook.Lib.Avoids

set_option autoImplicit false

namespace LimitOrderBook
open Checked

namespace OrderPool

variable (p : OrderPool)

end OrderPool

namespace PriceLevel

variable (level : PriceLevel) (p : OrderPool) (i : UInt32)

end PriceLevel

namespace PriceLadder

variable (l : PriceLadder) (p : OrderPool)

end PriceLadder

namespace OrderBook

variable (b : OrderBook)

end OrderBook

end LimitOrderBook
