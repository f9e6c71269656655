import Whirlpools.Math.TokenContract
import Whirlpools.Math.U256Arithmetic
import Whirlpools.Pools.Bookkeeping
import Whirlpools.Pools.Exit
import Whirlpools.Pools.FeeConservation
import Whirlpools.Pools.GrowthLaw
import Whirlpools.Pools.PriceTick
import Whirlpools.Deployment.Badges
import Whirlpools.Deployment.Custody
import Whirlpools.Pools.RewardBudget
import Whirlpools.Sdk.BundleAgreement
import Whirlpools.Sdk.RouteRanking
import Whirlpools.Sdk.CollectAgreement
import Whirlpools.Sdk.DepositQuote
import Whirlpools.Sdk.InitializableTicks
import Whirlpools.Sdk.OfferedRoutes
import Whirlpools.Sdk.PathSearch
import Whirlpools.Sdk.PoolQuotes
import Whirlpools.Sdk.RemainingAccountsRoundTrip
import Whirlpools.Sdk.Sampling
import Whirlpools.Sdk.SearchAgreement
import Whirlpools.Sdk.SlippageQuotes
import Whirlpools.Sdk.StepAgreement
import Whirlpools.Swap.Crossings
import Whirlpools.Swap.PlainArithmetic
import Whirlpools.Swap.TwoHop
